/-
# What a breadth-first search finds

A search finds what the starting points lead to and nothing else (`mem_search_iff`),
each point once (`nodup_search`), beginning with the starting points
(`isPrefix_search`), which are followed by the successors of all that is found, each at its
first place (`search_eq`).  Seen through a map that sends the successors of a point to the
successors of its image, it is a search again: the first places of the images are in
the order in which the images would be searched themselves (`finds_map_search`).  The
order of a search thus depends only on what the points stand for, and not on their names
(`search_map`).
-/
import LexAutomata.Search

namespace LexAutomata

namespace Graph

variable {α γ : Type} [DecidableEq α] [DecidableEq γ]

/-! ## Newcomers of a list -/

/-- The newcomers are the points of the list that are not known. -/
theorem mem_newcomers_iff {known bs : List α} {c : α} :
    c ∈ newcomers known bs ↔ c ∈ bs ∧ ¬ c ∈ known := by
  constructor
  · exact mem_newcomers
  · rintro ⟨hc, hk⟩
    induction bs generalizing known with
    | nil => simp at hc
    | cons b bs ih =>
      rw [newcomers]
      split
      · rename_i hb
        rcases List.mem_cons.1 hc with rfl | hc
        · exact absurd hb hk
        · exact ih hc hk
      · by_cases hcb : c = b
        · subst hcb
          exact List.mem_cons_self
        · apply List.mem_cons_of_mem
          apply ih
          · exact (List.mem_cons.1 hc).resolve_left hcb
          · intro h
            exact (List.mem_cons.1 h).elim hcb hk

theorem nodup_newcomers (known bs : List α) : (newcomers known bs).Nodup := by
  induction bs generalizing known with
  | nil => simp [newcomers]
  | cons b bs ih =>
    rw [newcomers]
    split
    · exact ih known
    · rw [List.nodup_cons]
      refine ⟨?_, ih (b :: known)⟩
      intro h
      exact (mem_newcomers h).2 List.mem_cons_self

/-- Newcomers depend on the members of the known list alone. -/
theorem newcomers_congr {known known' : List α} (h : ∀ a, a ∈ known ↔ a ∈ known')
    (bs : List α) : newcomers known bs = newcomers known' bs := by
  induction bs generalizing known known' with
  | nil => rfl
  | cons b bs ih =>
    rw [newcomers, newcomers]
    by_cases hb : b ∈ known
    · rw [if_pos hb, if_pos ((h b).1 hb), ih h]
    · rw [if_neg hb, if_neg (fun hb' => hb ((h b).2 hb')), ih]
      intro a
      rw [List.mem_cons, List.mem_cons, h a]

theorem newcomers_cons_of_mem {known : List α} {b : α} (hb : b ∈ known) (bs : List α) :
    newcomers (b :: known) bs = newcomers known bs := by
  apply newcomers_congr
  intro a
  rw [List.mem_cons]
  exact ⟨fun h => h.elim (fun ha => ha ▸ hb) id, Or.inr⟩

theorem newcomers_append (known bs cs : List α) :
    newcomers known (bs ++ cs) = newcomers known bs ++ newcomers (known ++ bs) cs := by
  induction bs generalizing known with
  | nil => simp [newcomers]
  | cons b bs ih =>
    rw [List.cons_append, newcomers, newcomers]
    split
    · rename_i hb
      rw [ih]
      congr 1
      apply newcomers_congr
      intro a
      simp only [List.mem_append, List.mem_cons]
      constructor
      · rintro (h | h)
        · exact Or.inl h
        · exact Or.inr (Or.inr h)
      · rintro (h | rfl | h)
        · exact Or.inl h
        · exact Or.inl hb
        · exact Or.inr h
    · rw [ih, List.cons_append]
      congr 2
      apply newcomers_congr
      intro a
      simp only [List.mem_append, List.mem_cons]
      exact or_left_comm

/-- A list of known points has no newcomers. -/
theorem newcomers_eq_nil {known bs : List α} (h : ∀ b ∈ bs, b ∈ known) :
    newcomers known bs = [] := by
  rw [List.eq_nil_iff_forall_not_mem]
  intro c hc
  obtain ⟨h1, h2⟩ := mem_newcomers hc
  exact h2 (h c h1)

/-- A list of distinct unknown points consists of newcomers. -/
theorem newcomers_eq_self {known bs : List α} (hbs : bs.Nodup) (h : ∀ b ∈ bs, ¬ b ∈ known) :
    newcomers known bs = bs := by
  induction bs generalizing known with
  | nil => rfl
  | cons b bs ih =>
    rw [List.nodup_cons] at hbs
    rw [newcomers, if_neg (h b List.mem_cons_self), ih hbs.2]
    intro c hc hk
    rcases List.mem_cons.1 hk with rfl | hk
    · exact hbs.1 hc
    · exact h c (List.mem_cons_of_mem _ hc) hk

theorem mem_append_newcomers {known bs : List α} {b : α} (hb : b ∈ bs) :
    b ∈ known ++ newcomers known bs := by
  by_cases hk : b ∈ known
  · exact List.mem_append_left _ hk
  · exact List.mem_append_right _ (mem_newcomers_iff.2 ⟨hb, hk⟩)

/-- What is new repeats nothing that is known. -/
theorem nodup_append_newcomers {known : List α} (h : known.Nodup) (bs : List α) :
    (known ++ newcomers known bs).Nodup := by
  rw [List.nodup_append]
  refine ⟨h, nodup_newcomers known bs, ?_⟩
  intro b hb c hc hbc
  subst hbc
  exact (mem_newcomers hc).2 hb

/-- What is new beside a list is new beside its newcomers. -/
theorem newcomers_append_newcomers (known bs cs : List α) :
    newcomers (known ++ newcomers known bs) cs = newcomers (known ++ bs) cs := by
  apply newcomers_congr
  intro c
  rw [List.mem_append, List.mem_append, mem_newcomers_iff]
  by_cases hc : c ∈ known <;> simp [hc]

/-- Points that are dropped as known have images that are known, so dropping them first
changes no newcomer among the images. -/
theorem newcomers_map_newcomers (f : α → γ) (known bs : List α) :
    newcomers (known.map f) ((newcomers known bs).map f) = newcomers (known.map f) (bs.map f) := by
  induction bs generalizing known with
  | nil => rfl
  | cons b bs ih =>
    -- what follows `b` is compared with `b` known, which changes nothing if its image is known
    have hsnoc : newcomers (f b :: known.map f) ((newcomers (b :: known) bs).map f)
        = newcomers (f b :: known.map f) (bs.map f) := by
      have h := ih (b :: known)
      rwa [List.map_cons] at h
    rw [newcomers, List.map_cons, newcomers]
    by_cases hb : b ∈ known
    · rw [if_pos hb, if_pos (List.mem_map_of_mem hb), ih]
    · rw [if_neg hb, List.map_cons, newcomers]
      by_cases hfb : f b ∈ known.map f
      · rw [newcomers_cons_of_mem hfb, newcomers_cons_of_mem hfb] at hsnoc
        rw [if_pos hfb, if_pos hfb, hsnoc]
      · rw [if_neg hfb, if_neg hfb, hsnoc]

/-- Images are new when the points are, if different points keep different images. -/
theorem newcomers_map {f : α → γ} {known bs : List α}
    (h : ((known ++ newcomers known bs).map f).Nodup) :
    newcomers (known.map f) (bs.map f) = (newcomers known bs).map f := by
  rw [List.map_append, List.nodup_append] at h
  obtain ⟨-, hnew, hdisj⟩ := h
  rw [← newcomers_map_newcomers, newcomers_eq_self hnew]
  exact fun c hc hknown => hdisj c hknown c hc rfl

omit [DecidableEq γ] in
/-- What comes earlier among the newcomers of a list has an earlier place in the list. -/
theorem pairwise_newcomers_map {R : γ → γ → Prop} (f : γ → α) {known : List α} {l : List γ}
    (hl : l.Pairwise R) :
    (newcomers known (l.map f)).Pairwise fun a b =>
      ∀ u ∈ l, f u = b → ∃ t ∈ l, f t = a ∧ R t u := by
  induction l generalizing known with
  | nil => exact List.Pairwise.nil
  | cons t l ih =>
    rw [List.pairwise_cons] at hl
    rw [List.map_cons, newcomers]
    -- a newcomer that follows is not at the head of the list
    have hlater : ∀ {seen : List α}, f t ∈ seen →
        (newcomers seen (l.map f)).Pairwise fun a b =>
          ∀ u ∈ t :: l, f u = b → ∃ v ∈ t :: l, f v = a ∧ R v u := by
      intro seen hseen
      refine (ih hl.2).imp_of_mem ?_
      intro a b _ hb hab u hu hub
      rcases List.mem_cons.1 hu with rfl | hu
      · exact absurd hseen (hub ▸ (mem_newcomers hb).2)
      · obtain ⟨v, hv, hva⟩ := hab u hu hub
        exact ⟨v, List.mem_cons_of_mem t hv, hva⟩
    split
    · rename_i ht
      exact hlater ht
    · rw [List.pairwise_cons]
      refine ⟨?_, hlater List.mem_cons_self⟩
      intro b hb u hu hub
      rcases List.mem_cons.1 hu with rfl | hu
      · exact absurd List.mem_cons_self (hub ▸ (mem_newcomers hb).2)
      · exact ⟨t, List.mem_cons_self, rfl, hl.1 u hu⟩

/-! ## The points that are found -/

/-- What a list of starting points leads to. -/
inductive Reaches (g : Graph α) (start : List α) : α → Prop
  /-- A starting point leads to itself. -/
  | start {a : α} (h : a ∈ start) : Reaches g start a
  /-- A successor of what is led to is led to. -/
  | step {a b : α} (h : Reaches g start a) (hb : b ∈ g.successors a) : Reaches g start b

/-- The points whose successors were all met. -/
def Explored (g : Graph α) (visited met : List α) : Prop :=
  ∀ a ∈ visited, ∀ b ∈ g.successors a, b ∈ met

/-- A visit explores the point at the head of the queue, and what was explored stays so. -/
theorem Explored.visit {g : Graph α} {visited rest : List α} {a : α}
    (h : g.Explored visited (visited ++ a :: rest)) :
    g.Explored (visited ++ [a])
      (visited ++ a :: rest ++ newcomers (visited ++ a :: rest) (g.successors a)) := by
  intro c hc b hb
  rcases List.mem_append.1 hc with hc | hc
  · exact List.mem_append_left _ (h c hc b hb)
  · rw [List.mem_singleton.1 hc] at hb
    exact mem_append_newcomers hb

theorem subset_searchFrom {g : Graph α} {met queue : List α} :
    met <+: g.searchFrom met queue := by
  fun_induction searchFrom g met queue with
  | case1 met => exact List.prefix_rfl
  | case2 met a rest fresh ih => exact (List.prefix_append met fresh).trans ih

theorem nodup_searchFrom {g : Graph α} {met queue : List α} (h : met.Nodup) :
    (g.searchFrom met queue).Nodup := by
  fun_induction searchFrom g met queue with
  | case1 met => exact h
  | case2 met a rest fresh ih => exact ih (nodup_append_newcomers h _)

/-- What was met and what is still to be visited is led to, and so is all that is found. -/
theorem reaches_of_mem_searchFrom {g : Graph α} {start met queue : List α}
    (hmet : ∀ a ∈ met, g.Reaches start a) (hqueue : ∀ a ∈ queue, g.Reaches start a) :
    ∀ a ∈ g.searchFrom met queue, g.Reaches start a := by
  fun_induction searchFrom g met queue with
  | case1 met => exact hmet
  | case2 met b rest fresh ih =>
    have hfresh : ∀ a ∈ fresh, g.Reaches start a := fun a ha =>
      (hqueue b List.mem_cons_self).step (mem_newcomers ha).1
    apply ih
    · intro a ha
      exact (List.mem_append.1 ha).elim (hmet a) (hfresh a)
    · intro a ha
      exact (List.mem_append.1 ha).elim (fun h => hqueue a (List.mem_cons_of_mem _ h)) (hfresh a)

/-- When what was met is explored up to the queue, all that is found is explored at the end. -/
theorem explored_searchFrom {g : Graph α} {met queue : List α}
    (h : ∃ visited, met = visited ++ queue ∧ g.Explored visited met) :
    g.Explored (g.searchFrom met queue) (g.searchFrom met queue) := by
  fun_induction searchFrom g met queue with
  | case1 met =>
    obtain ⟨visited, rfl, h⟩ := h
    rw [List.append_nil] at h ⊢
    exact h
  | case2 met a rest fresh ih =>
    -- what was met is what was visited, followed by the queue
    obtain ⟨visited, rfl, h⟩ := h
    exact ih ⟨visited ++ [a], by simp, h.visit⟩

theorem nodup_search {g : Graph α} {start : List α} (h : start.Nodup) : (g.search start).Nodup :=
  nodup_searchFrom h

theorem isPrefix_search {g : Graph α} {start : List α} : start <+: g.search start :=
  subset_searchFrom

/-- **A search finds what its starting points lead to.** -/
theorem mem_search_iff {g : Graph α} {start : List α} {a : α} :
    a ∈ g.search start ↔ g.Reaches start a := by
  constructor
  · intro h
    exact reaches_of_mem_searchFrom (fun _ => Reaches.start) (fun _ => Reaches.start) a h
  · intro h
    induction h with
    | start h => exact isPrefix_search.subset h
    | step _ hb ih => exact explored_searchFrom ⟨[], rfl, by simp [Explored]⟩ _ ih _ hb

theorem exists_searchFrom_eq (g : Graph α) (met queue : List α) :
    ∃ more, g.searchFrom met queue = met ++ more ∧
      more = newcomers met ((queue ++ more).flatMap g.successors) := by
  fun_induction searchFrom g met queue with
  | case1 met => exact ⟨[], (List.append_nil met).symm, rfl⟩
  | case2 met a rest fresh ih =>
    obtain ⟨more, hfound, hmore⟩ := ih
    -- the fresh points come first, and what comes later is new beside them
    refine ⟨fresh ++ more, by rw [hfound, List.append_assoc], ?_⟩
    rw [List.cons_append, List.flatMap_cons, newcomers_append, ← List.append_assoc rest,
      ← newcomers_append_newcomers, ← hmore]

/-- **A search lists the starting points and then the successors of all that it lists**, each at its
first place. -/
theorem search_eq (g : Graph α) (start : List α) :
    g.search start = start ++ newcomers start ((g.search start).flatMap g.successors) := by
  obtain ⟨more, hfound, hmore⟩ := exists_searchFrom_eq g start start
  rw [search, hfound, ← hmore]

/-! ## Searching the images -/

/-- Visiting the points of `queue` one after the other, where `met` have been met so far, ends
with the points `found` met. -/
inductive Finds (next : γ → List γ) : List γ → List γ → List γ → Prop
  /-- An empty queue ends the search. -/
  | done (met : List γ) : Finds next met [] met
  /-- The head of the queue is visited, and the points that it introduces join the queue. -/
  | visit {met rest found : List γ} {a : γ}
      (h : Finds next (met ++ newcomers met (next a)) (rest ++ newcomers met (next a)) found) :
      Finds next met (a :: rest) found

/-- The order of a search is determined. -/
theorem Finds.unique {next : γ → List γ} {met queue found found' : List γ}
    (h : Finds next met queue found) (h' : Finds next met queue found') : found = found' := by
  induction h with
  | done met =>
    cases h' with
    | done => rfl
  | visit _ ih =>
    cases h' with
    | visit h' => exact ih h'

/-- One visit, seen through `f`: a point whose image was visited before introduces no image, and
any other point introduces the images that its own image introduces. -/
theorem newcomers_map_visit {g : Graph α} {f : α → γ} {next : γ → List γ}
    {visited rest : List α} {a : α} (ha : (g.successors a).map f = next (f a))
    (hvisited : ∀ b ∈ visited, (g.successors b).map f = next (f b))
    (h : g.Explored visited (visited ++ a :: rest)) :
    newcomers ((visited ++ a :: rest).map f)
        ((newcomers (visited ++ a :: rest) (g.successors a)).map f)
      = if f a ∈ visited.map f then []
        else newcomers ((visited ++ a :: rest).map f) (next (f a)) := by
  rw [newcomers_map_newcomers, ha]
  split
  · rename_i hfa
    rw [List.mem_map] at hfa
    obtain ⟨b, hb, hba⟩ := hfa
    apply newcomers_eq_nil
    -- a visited point of the same image has introduced all of this before
    rw [← hba, ← hvisited b hb]
    intro c hc
    rw [List.mem_map] at hc
    obtain ⟨d, hd, rfl⟩ := hc
    exact List.mem_map_of_mem (h b hb d hd)
  · rfl

/-- The search from a queue, seen through `f`, is the search from the images of the queue that
are not images of visited points. -/
theorem finds_map_searchFrom {g : Graph α} {f : α → γ} {next : γ → List γ} {start : List α}
    (hf : ∀ a, g.Reaches start a → (g.successors a).map f = next (f a))
    {met queue : List α} (hreach : ∀ a ∈ met, g.Reaches start a) :
    ∀ visited, met = visited ++ queue → g.Explored visited met →
      Finds next (newcomers [] (met.map f)) (newcomers (visited.map f) (queue.map f))
        (newcomers [] ((g.searchFrom met queue).map f)) := by
  fun_induction searchFrom g met queue with
  | case1 met =>
    intro visited _ _
    exact Finds.done _
  | case2 met a rest fresh ih =>
    -- the images in the queue are those of the points to visit, less those of visited points
    rintro visited rfl h
    have ha : g.Reaches start a := hreach a (by simp)
    have hvisit := newcomers_map_visit (hf a ha)
      (fun b hb => hf b (hreach b (List.mem_append_left _ hb))) h
    have hfresh : ∀ b ∈ visited ++ a :: rest ++ fresh, g.Reaches start b := by
      intro b hb
      rcases List.mem_append.1 hb with hb | hb
      · exact hreach b hb
      · exact ha.step (mem_newcomers hb).1
    have hmet : (visited ++ [a]).map f ++ rest.map f = (visited ++ a :: rest).map f := by simp
    have hqueue : newcomers ((visited ++ [a]).map f) (rest.map f)
        = newcomers (f a :: visited.map f) (rest.map f) := by
      apply newcomers_congr
      intro c
      simp [or_comm]
    have ih := ih hfresh (visited ++ [a]) (by simp) h.visit
    rw [List.map_append, newcomers_append, List.nil_append, @List.map_append _ _ f rest,
      newcomers_append, hmet, hvisit, hqueue] at ih
    rw [List.map_cons, newcomers]
    split at ih
    · -- the image of `a` was visited before, and visiting `a` changes nothing
      rename_i hfa
      rw [List.append_nil, List.append_nil] at ih
      rw [if_pos hfa]
      rwa [newcomers_cons_of_mem hfa] at ih
    · -- the image of `a` is at the head of the queue of images, and is visited now
      rename_i hfa
      rw [if_neg hfa]
      apply Finds.visit
      have hknown : newcomers (newcomers [] ((visited ++ a :: rest).map f)) (next (f a))
          = newcomers ((visited ++ a :: rest).map f) (next (f a)) := by
        apply newcomers_congr
        intro c
        simp [mem_newcomers_iff]
      rw [hknown]
      exact ih

/-- **A search seen through a map is a search.** -/
theorem finds_map_search {g : Graph α} {f : α → γ} {next : γ → List γ} {start : List α}
    (hf : ∀ a, g.Reaches start a → (g.successors a).map f = next (f a)) :
    Finds next (newcomers [] (start.map f)) (newcomers [] (start.map f))
      (newcomers [] ((g.search start).map f)) :=
  finds_map_searchFrom hf (fun _ => Reaches.start) [] rfl (by simp [Explored])

/-- **Renamed points are searched in the same order**, if different points that the search finds
keep different names. -/
theorem search_map {g : Graph α} {h : Graph γ} {f : α → γ} {start : List α} (hstart : start.Nodup)
    (hf : ∀ a, g.Reaches start a → h.successors (f a) = (g.successors a).map f)
    (hinj : ∀ a b, g.Reaches start a → g.Reaches start b → f a = f b → a = b) :
    h.search (start.map f) = (g.search start).map f := by
  have hnodup : ∀ {l : List α}, l.Nodup → (∀ a ∈ l, g.Reaches start a) → (l.map f).Nodup := by
    intro l hl hreach
    exact List.pairwise_map.2 (hl.imp_of_mem fun ha hb hab heq =>
      hab (hinj _ _ (hreach _ ha) (hreach _ hb) heq))
  have hstartf := hnodup hstart fun _ => Reaches.start
  -- both lists are what is found from the renamed starting points
  have hleft : Finds h.successors (newcomers [] ((start.map f).map id))
      (newcomers [] ((start.map f).map id)) (newcomers [] ((h.search (start.map f)).map id)) :=
    finds_map_search fun a _ => List.map_id _
  have hright : Finds h.successors (newcomers [] (start.map f)) (newcomers [] (start.map f))
      (newcomers [] ((g.search start).map f)) := finds_map_search fun a ha => (hf a ha).symm
  rw [List.map_id, List.map_id] at hleft
  have heq := hleft.unique hright
  rwa [newcomers_eq_self (nodup_search hstartf) fun _ _ => List.not_mem_nil,
    newcomers_eq_self (hnodup (nodup_search hstart) fun _ => mem_search_iff.1)
      fun _ _ => List.not_mem_nil] at heq

end Graph

end LexAutomata
