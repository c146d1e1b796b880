/-
# Automata that grow by one state

The automaton of a pattern grows state by state.  A new state is entered from one older
state and left only to itself (`Sprouts`), so the paths between older states stay as they
were (`Sprouts.leads_iff`), and a path to the new state reads a path to the older state, a
character to enter by, and characters to stay by (`Sprouts.leads_new_iff`).  An automaton
that grows has its states counted up from the start state without a gap, no transition
back to the start state, and characters as labels (`Draft`); each growth keeps this
(`Draft.sprout`).
-/
import LexAutomata.Pattern.Basic
import LexAutomata.Proofs.Automaton.Construction

namespace LexAutomata

/-- The symbols of characters. -/
def symbols (cs : List Char) : List String := cs.map fun c => String.ofList [c]

theorem spell_eq_symbols (word : String) : spell word = symbols word.toList := rfl

@[simp] theorem symbols_nil : symbols [] = [] := rfl

@[simp] theorem symbols_cons (c : Char) (cs : List Char) :
    symbols (c :: cs) = String.ofList [c] :: symbols cs := rfl

@[simp] theorem symbols_append (cs ds : List Char) :
    symbols (cs ++ ds) = symbols cs ++ symbols ds := List.map_append

/-- The symbols of a text determine its characters. -/
theorem symbols_injective {cs ds : List Char} (h : symbols cs = symbols ds) : cs = ds :=
  (List.map_inj_right fun _ _ h => List.head_eq_of_cons_eq (String.ofList_inj.1 h)).1 h

namespace Automaton

variable {A B : Automaton} {p n : Int} {enter stay : List Char}

/-- `B` is `A` with one more state `n`, which is entered from `p` by the characters `enter`, and
from itself by the characters `stay`. -/
structure Sprouts (A : Automaton) (p n : Int) (enter stay : List Char) (B : Automaton) :
    Prop where
  /-- The state to enter from is an older one. -/
  source : p ∈ A.states
  /-- The new state is new. -/
  fresh : ¬ n ∈ A.states
  /-- The start state stays. -/
  start_eq : B.start = A.start
  /-- The final states stay. -/
  finals_eq : B.finals = A.finals
  /-- There is one more state. -/
  mem_states : ∀ q, q ∈ B.states ↔ q = n ∨ q ∈ A.states
  /-- There are the transitions to the new state. -/
  mem_targets : ∀ q l r, r ∈ B.targets q l ↔ r ∈ A.targets q l ∨
    r = n ∧ ∃ c, l = .ofChar c ∧ (q = p ∧ c ∈ enter ∨ q = n ∧ c ∈ stay)
  /-- The labels of new entries are characters. -/
  hasEntry : ∀ q l, B.HasEntry q l → A.HasEntry q l ∨ ∃ c, l = .ofChar c

/-- The transitions of the automaton lead from states to states. -/
def Connected (A : Automaton) : Prop :=
  ∀ p l q, q ∈ A.targets p l → p ∈ A.states ∧ q ∈ A.states

namespace Sprouts

variable {q r : Int} {w : List String}

/-- What the new state led to before it was there is nothing. -/
theorem eq_of_leads_new (h : A.Sprouts p n enter stay B) (hA : A.Connected)
    (hw : A.Leads n w r) : r = n := by
  cases hw with
  | nil => rfl
  | epsilon hq _ => exact absurd (hA _ _ _ hq).1 h.fresh
  | symbol hq _ => exact absurd (hA _ _ _ hq).1 h.fresh

/-- Older paths are still paths. -/
theorem leads_of_leads (h : A.Sprouts p n enter stay B) (hw : A.Leads q w r) : B.Leads q w r := by
  induction hw with
  | nil => exact .nil _
  | epsilon hq _ ih => exact .epsilon ((h.mem_targets _ _ _).2 (Or.inl hq)) ih
  | symbol hq _ ih => exact .symbol ((h.mem_targets _ _ _).2 (Or.inl hq)) ih

/-- **Paths to older states are older paths**, for nothing leads back from the new state. -/
theorem leads_iff (h : A.Sprouts p n enter stay B) (hA : A.Connected) (hr : r ≠ n) :
    B.Leads q w r ↔ A.Leads q w r := by
  refine ⟨fun hw => ?_, h.leads_of_leads⟩
  induction hw with
  | nil => exact .nil _
  | epsilon hq _ ih =>
    rcases (h.mem_targets _ _ _).1 hq with hq | ⟨rfl, -⟩
    · exact .epsilon hq (ih hr)
    · exact absurd (h.eq_of_leads_new hA (ih hr)) hr
  | symbol hq _ ih =>
    rcases (h.mem_targets _ _ _).1 hq with hq | ⟨rfl, -⟩
    · exact .symbol hq (ih hr)
    · exact absurd (h.eq_of_leads_new hA (ih hr)) hr

/-- The new state is kept by reading characters to stay by. -/
theorem leads_stay (h : A.Sprouts p n enter stay B) {v : List Char} (hv : ∀ c ∈ v, c ∈ stay) :
    B.Leads n (symbols v) n := by
  induction v with
  | nil => exact .nil n
  | cons c v ih =>
    rw [List.forall_mem_cons] at hv
    exact .symbol ((h.mem_targets _ _ _).2 (Or.inr ⟨rfl, c, rfl, Or.inr ⟨rfl, hv.1⟩⟩)) (ih hv.2)

/-- **Paths to the new state** lead to the older state, enter and stay. -/
theorem leads_new_iff (h : A.Sprouts p n enter stay B) (hA : A.Connected) (hq : q ∈ A.states) :
    B.Leads q w n ↔ ∃ u c v, w = u ++ symbols (c :: v) ∧ A.Leads q u p ∧ c ∈ enter ∧
      ∀ x ∈ v, x ∈ stay := by
  constructor
  · intro hw
    -- a path from the new state reads characters to stay by, any other one enters somewhere
    suffices hsplit : ∀ r, B.Leads q w r → r = n →
        (q = n → ∃ v, w = symbols v ∧ ∀ x ∈ v, x ∈ stay) ∧
        (q ∈ A.states → ∃ u c v, w = u ++ symbols (c :: v) ∧ A.Leads q u p ∧ c ∈ enter ∧
          ∀ x ∈ v, x ∈ stay) from (hsplit n hw rfl).2 hq
    clear hw hq
    intro r hw
    induction hw with
    | nil q =>
      rintro rfl
      exact ⟨fun _ => ⟨[], rfl, by simp⟩, fun hq => absurd hq h.fresh⟩
    | @epsilon q q' r w hq hw ih =>
      intro hr
      rcases (h.mem_targets _ _ _).1 hq with hq | ⟨-, c, hc, -⟩
      · obtain ⟨hqA, hqA'⟩ := hA _ _ _ hq
        refine ⟨fun hqn => absurd hqA (hqn ▸ h.fresh), fun _ => ?_⟩
        obtain ⟨u, c, v, rfl, hu, hcv⟩ := (ih hr).2 hqA'
        exact ⟨u, c, v, rfl, .epsilon hq hu, hcv⟩
      · cases hc
    | @symbol q q' r s w hq hw ih =>
      intro hr
      rcases (h.mem_targets _ _ _).1 hq with hq | ⟨rfl, c, hc, hstep⟩
      · obtain ⟨hqA, hqA'⟩ := hA _ _ _ hq
        refine ⟨fun hqn => absurd hqA (hqn ▸ h.fresh), fun _ => ?_⟩
        obtain ⟨u, c, v, rfl, hu, hcv⟩ := (ih hr).2 hqA'
        exact ⟨s :: u, c, v, rfl, .symbol hq hu, hcv⟩
      · obtain ⟨v, rfl, hv⟩ := (ih hr).1 rfl
        cases hc
        rcases hstep with ⟨rfl, hc⟩ | ⟨rfl, hc⟩
        · exact ⟨fun hqn => absurd h.source (hqn ▸ h.fresh),
            fun _ => ⟨[], c, v, rfl, .nil _, hc, hv⟩⟩
        · exact ⟨fun _ => ⟨c :: v, rfl, List.forall_mem_cons.2 ⟨hc, hv⟩⟩,
            fun hq => absurd hq h.fresh⟩
  · rintro ⟨u, c, v, rfl, hu, hc, hv⟩
    have hstep : n ∈ B.targets p (.ofChar c) :=
      (h.mem_targets _ _ _).2 (Or.inr ⟨rfl, c, rfl, Or.inl ⟨rfl, hc⟩⟩)
    exact (h.leads_of_leads hu).append (.symbol hstep (h.leads_stay hv))

/-- Older states read what they read before. -/
theorem reads_iff (h : A.Sprouts p n enter stay B) (hA : A.Connected)
    (hfin : ∀ q ∈ A.finals, q ∈ A.states) : B.Reads q w ↔ A.Reads q w := by
  have hpath : ∀ r ∈ A.finals, (B.Leads q w r ↔ A.Leads q w r) := fun r hr =>
    h.leads_iff hA fun hrn => h.fresh (hrn ▸ hfin r hr)
  rw [Reads, Reads, h.finals_eq]
  constructor
  · rintro ⟨r, hr, hw⟩
    exact ⟨r, hr, (hpath r hr).1 hw⟩
  · rintro ⟨r, hr, hw⟩
    exact ⟨r, hr, (hpath r hr).2 hw⟩

/-- The transitions still lead from states to states. -/
theorem connected (h : A.Sprouts p n enter stay B) (hA : A.Connected) : B.Connected := by
  intro q l r hr
  rw [h.mem_states, h.mem_states]
  rcases (h.mem_targets _ _ _).1 hr with hr | ⟨rfl, -, -, ⟨rfl, -⟩ | ⟨rfl, -⟩⟩
  · exact ⟨Or.inr (hA _ _ _ hr).1, Or.inr (hA _ _ _ hr).2⟩
  · exact ⟨Or.inr h.source, Or.inl rfl⟩
  · exact ⟨Or.inl rfl, Or.inl rfl⟩

/-! ### Growing -/

/-- A state that nothing leads to yet. -/
theorem addState (hp : p ∈ A.states) (hn : ¬ n ∈ A.states) :
    A.Sprouts p n [] [] (A.addState n) where
  source := hp
  fresh := hn
  start_eq := rfl
  finals_eq := rfl
  mem_states _ := StateSet.mem_insert
  mem_targets q l r := by
    simp only [List.not_mem_nil, and_false, or_self, exists_false, or_false]
    rfl
  hasEntry _ _ := Or.inl

/-- The label of a connection is a character or was there before. -/
theorem hasEntry_connect_char (h : A.Sprouts p n enter stay B) (p' : Int) (x : Char) (q : Int)
    (l : Label) (hq : (B.connect p' n (.ofChar x)).HasEntry q l) :
    A.HasEntry q l ∨ ∃ c, l = .ofChar c := by
  rcases Automaton.hasEntry_connect.1 hq with hq | ⟨-, rfl⟩
  · exact h.hasEntry q l hq
  · exact Or.inr ⟨x, rfl⟩

/-- One more character to enter by. -/
theorem enterBy (h : A.Sprouts p n enter stay B) (x : Char) :
    A.Sprouts p n (enter ++ [x]) stay (B.connect p n (.ofChar x)) where
  source := h.source
  fresh := h.fresh
  start_eq := h.start_eq
  finals_eq := h.finals_eq
  mem_states q := by
    have := h.source
    rw [mem_states_connect, h.mem_states]
    grind
  mem_targets q l r := by
    rw [mem_targets_connect, h.mem_targets]
    simp only [List.mem_append, List.mem_singleton]
    grind
  hasEntry := h.hasEntry_connect_char p x

/-- One more character to stay by. -/
theorem stayBy (h : A.Sprouts p n enter stay B) (x : Char) :
    A.Sprouts p n enter (stay ++ [x]) (B.connect n n (.ofChar x)) where
  source := h.source
  fresh := h.fresh
  start_eq := h.start_eq
  finals_eq := h.finals_eq
  mem_states q := by
    rw [mem_states_connect, h.mem_states]
    grind
  mem_targets q l r := by
    rw [mem_targets_connect, h.mem_targets]
    simp only [List.mem_append, List.mem_singleton]
    grind
  hasEntry := h.hasEntry_connect_char n x

end Sprouts

/-! ## Accepting in one more state -/

open Pattern (accept)

/-- Making a state final changes no path. -/
theorem leads_accept_iff {q r : Int} {w : List String} :
    (accept A n).Leads q w r ↔ A.Leads q w r := by
  constructor
  · intro h
    induction h with
    | nil => exact .nil _
    | epsilon hq _ ih => exact .epsilon hq ih
    | symbol hq _ ih => exact .symbol hq ih
  · intro h
    induction h with
    | nil => exact .nil _
    | epsilon hq _ ih => exact .epsilon hq ih
    | symbol hq _ ih => exact .symbol hq ih

/-- Once a state is final, the words that lead to it are read as well. -/
theorem reads_accept_iff {q : Int} {w : List String} :
    (accept A n).Reads q w ↔ A.Leads q w n ∨ A.Reads q w := by
  simp only [Reads, leads_accept_iff]
  simp only [accept, StateSet.mem_insert, or_and_right, exists_or, exists_eq_left]

/-! ## Drafts -/

/-- An automaton under construction: its states are counted from its start state up to the next
one of the counter, no transition leads to its start state, and its labels are characters. -/
structure Draft (A : Automaton) (first : Int) (c : Counter) : Prop where
  /-- The first state is the start state. -/
  start_eq : A.start = some first
  /-- The counter has moved. -/
  first_lt : first < c.next
  /-- The states are those that the counter has handed out. -/
  mem_states : ∀ q, q ∈ A.states ↔ first ≤ q ∧ q < c.next
  /-- The final states are states. -/
  finals : ∀ q ∈ A.finals, q ∈ A.states
  /-- The transitions lead from states to states. -/
  connected : A.Connected
  /-- No transition leads to the start state. -/
  not_mem_targets : ∀ q l, ¬ first ∈ A.targets q l
  /-- The labels are characters. -/
  hasEntry : ∀ q l, A.HasEntry q l → ∃ c, l = .ofChar c

/-- The automaton that has its start state alone. -/
def lone (name : String) (q : Int) : Automaton :=
  { name := name, states := .singleton q, start := some q }

namespace Draft

variable {first q : Int} {c : Counter}

/-- The next state of the counter is not in the draft yet. -/
theorem not_mem_next (h : A.Draft first c) : ¬ c.next ∈ A.states := by
  rw [h.mem_states]
  omega

theorem mem_first (h : A.Draft first c) : first ∈ A.states :=
  (h.mem_states first).2 ⟨Int.le_refl first, h.first_lt⟩

/-- A draft is valid. -/
theorem valid (h : A.Draft first c) : A.Valid where
  start := ⟨first, h.mem_first, h.start_eq⟩
  finals := h.finals
  ends := h.connected

/-- Growing by the next state of the counter moves the counter. -/
theorem sprout (h : A.Draft first c) (hB : A.Sprouts p c.next enter stay B) :
    B.Draft first c.advance where
  start_eq := hB.start_eq.trans h.start_eq
  first_lt := Int.lt_trans h.first_lt (Int.lt_succ c.next)
  mem_states q := by
    have := h.first_lt
    rw [hB.mem_states, h.mem_states, Counter.advance]
    simp only
    omega
  finals q hq := (hB.mem_states q).2 (Or.inr (h.finals q (hB.finals_eq ▸ hq)))
  connected := hB.connected h.connected
  not_mem_targets q l := by
    intro hq
    rcases (hB.mem_targets _ _ _).1 hq with hq | ⟨hn, -⟩
    · exact h.not_mem_targets q l hq
    · exact absurd hn (Int.ne_of_lt h.first_lt)
  hasEntry q l hq := (hB.hasEntry q l hq).elim (h.hasEntry q l) id

/-- A draft stays one when a state of it is made final. -/
theorem accept (h : A.Draft first c) (hn : n ∈ A.states) : (Pattern.accept A n).Draft first c where
  start_eq := h.start_eq
  first_lt := h.first_lt
  mem_states := h.mem_states
  finals q hq := by
    rcases StateSet.mem_insert.1 hq with rfl | hq
    · exact hn
    · exact h.finals q hq
  connected := h.connected
  not_mem_targets := h.not_mem_targets
  hasEntry := h.hasEntry

/-- A single state is a draft. -/
theorem lone (name : String) (c : Counter) :
    (Automaton.lone name c.next).Draft c.next c.advance where
  start_eq := rfl
  first_lt := Int.lt_succ c.next
  mem_states q := by
    rw [Automaton.lone, StateSet.mem_singleton, Counter.advance]
    simp only
    omega
  finals q hq := absurd hq (StateSet.not_mem_empty q)
  connected p l q hq := absurd hq (StateSet.not_mem_empty q)
  not_mem_targets q l := StateSet.not_mem_empty _
  hasEntry q l hq := absurd hq (by simp [HasEntry, entryOf, Automaton.lone])

/-- Nothing is read on the way back to the start state. -/
theorem leads_first_iff (h : A.Draft first c) {w : List String} :
    A.Leads first w first ↔ w = [] := by
  constructor
  · intro hw
    obtain ⟨hw, -⟩ | ⟨q, ⟨-, hq⟩ | ⟨_, _, -, -, hq⟩⟩ := hw.eq_or_exists_last
    · exact hw
    · exact absurd hq (h.not_mem_targets q _)
    · exact absurd hq (h.not_mem_targets q _)
  · rintro rfl
    exact .nil first

end Draft

end Automaton

end LexAutomata
