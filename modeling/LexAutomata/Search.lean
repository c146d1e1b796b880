/-
# Breadth-first search

Lists what a set of starting points leads to, in the order in which a search
meets it: the points of the queue are taken first come, first served, and the
successors of a point that were not met before join the queue in their order.
The search ends because all successors stand in one finite list.
-/

namespace LexAutomata

/-- A graph whose arrows lead to finitely many points, with the successors of a point in order. -/
structure Graph (α : Type) where
  /-- The points that a point leads to, in order. -/
  successors : α → List α
  /-- Some list holds every successor. -/
  finite : ∃ points : List α, ∀ a b, b ∈ successors a → b ∈ points

namespace Graph

variable {α : Type}

/-- A list that holds every successor. -/
noncomputable def points (g : Graph α) : List α := g.finite.choose

/-- Every successor is among the points. -/
theorem mem_points (g : Graph α) {a b : α} (h : b ∈ g.successors a) : b ∈ g.points :=
  g.finite.choose_spec a b h

variable [DecidableEq α]

/-- The points of a list that are not yet known, each at its first place. -/
def newcomers (known : List α) : List α → List α
  | [] => []
  | b :: bs => if b ∈ known then newcomers known bs else b :: newcomers (b :: known) bs

/-- A newcomer stands in the list and was not known. -/
theorem mem_newcomers {known bs : List α} {c : α} (h : c ∈ newcomers known bs) :
    c ∈ bs ∧ ¬ c ∈ known := by
  induction bs generalizing known with
  | nil => simp [newcomers] at h
  | cons b bs ih =>
    rw [newcomers] at h
    split at h
    · obtain ⟨h1, h2⟩ := ih h
      exact ⟨List.mem_cons_of_mem _ h1, h2⟩
    · rename_i hb
      rcases List.mem_cons.1 h with rfl | h
      · exact ⟨List.mem_cons_self, hb⟩
      · obtain ⟨h1, h2⟩ := ih h
        exact ⟨List.mem_cons_of_mem _ h1, fun h3 => h2 (List.mem_cons_of_mem _ h3)⟩

/-- How many entries of a list are not yet known. -/
def unknownCount (points known : List α) : Nat := points.countP fun a => ¬ a ∈ known

/-- What becomes known does not raise the count. -/
theorem unknownCount_le (points known more : List α) :
    unknownCount points (known ++ more) ≤ unknownCount points known := by
  unfold unknownCount
  apply List.countP_mono_left
  intro a _ h
  simp only [decide_eq_true_eq, List.mem_append] at h ⊢
  exact fun h1 => h (Or.inl h1)

/-- A point of the list that becomes known lowers the count. -/
theorem unknownCount_lt {points known more : List α} {a : α} (ha : a ∈ points)
    (hk : ¬ a ∈ known) (hm : a ∈ more) :
    unknownCount points (known ++ more) < unknownCount points known := by
  unfold unknownCount
  induction points with
  | nil => simp at ha
  | cons b points ih =>
    rw [List.countP_cons, List.countP_cons]
    by_cases hab : a = b
    · subst hab
      have h1 := unknownCount_le points known more
      unfold unknownCount at h1
      simp [hk, hm]
      simp at h1
      omega
    · have ha' : a ∈ points := by
        rcases List.mem_cons.1 ha with h | h
        · exact absurd h hab
        · exact h
      have h1 := ih ha'
      by_cases hb : b ∈ known
      · simp [hb]
        simpa using h1
      · by_cases hc : b ∈ more
        · simp [hb, hc]
          simp at h1
          omega
        · simp [hb, hc]
          simpa using h1

/-- Lists `met`, whose tail `queue` has not been visited yet, and all that the queue leads to. -/
def searchFrom (g : Graph α) (met queue : List α) : List α :=
  match queue with
  | [] => met
  | a :: rest =>
    let fresh := newcomers met (g.successors a)
    searchFrom g (met ++ fresh) (rest ++ fresh)
termination_by (unknownCount g.points met, queue.length)
decreasing_by
  cases hf : newcomers met (g.successors a) with
  | nil =>
    simp only [List.append_nil]
    apply Prod.Lex.right
    simp
  | cons b bs =>
    apply Prod.Lex.left
    have hb : b ∈ newcomers met (g.successors a) := by rw [hf]; exact List.mem_cons_self
    obtain ⟨h1, h2⟩ := mem_newcomers hb
    exact unknownCount_lt (g.mem_points h1) h2 List.mem_cons_self

/-- The points that the distinct starting points lead to, in the order of the search. -/
def search (g : Graph α) (start : List α) : List α := g.searchFrom start start

/-- What holds of the points met so far and of every successor holds of all that is found. -/
theorem of_mem_searchFrom {g : Graph α} {P : α → Prop}
    (hP : ∀ a b, b ∈ g.successors a → P b) {met queue : List α} (hmet : ∀ a ∈ met, P a) :
    ∀ a ∈ g.searchFrom met queue, P a := by
  fun_induction searchFrom g met queue with
  | case1 met => exact hmet
  | case2 met b rest fresh ih =>
    apply ih
    intro a ha
    rcases List.mem_append.1 ha with h | h
    · exact hmet a h
    · exact hP b a (mem_newcomers h).1

end Graph

end LexAutomata
