/-
# Partitions of the states of a table

The states of a table are divided into groups: first the final ones and the
others, then again and again every group by what its members' transitions lead
to, until a pass makes no more groups.  What counts as leading to the same is the
criterion: the same group, or the very same state.
-/
import LexAutomata.Table.Basic

namespace LexAutomata

/-- What has to agree for two states of a group to stay together. -/
inductive Criterion where
  /-- Under each symbol both lead to the same group, or neither leads anywhere. -/
  | targetGroup
  /-- Under each symbol both lead to the same state, or neither leads anywhere. -/
  | targetState
deriving DecidableEq, Inhabited

namespace Criterion

/-- The word for the criterion. -/
def name : Criterion → String
  | targetGroup => "partition"
  | targetState => "raw"

/-- The criteria in the order in which they are offered. -/
def all : List Criterion := [targetGroup, targetState]

/-- The criterion of a given name. -/
def ofName? (s : String) : Option Criterion := all.find? fun c => c.name = s

/-- What should name a criterion but names none. -/
inductive Unknown where
  /-- A name that no criterion has. -/
  | name (s : String)
  /-- No name at all. -/
  | nothing
deriving DecidableEq

/-- The error in words. -/
def Unknown.message : Unknown → String
  | name s => Text.quoted s ++ " is not a valid RefinementCriterion"
  | nothing => "[] is not a valid RefinementCriterion"

/-- The criterion of a given name, or the error that there is none. -/
def read (s : String) : Except Unknown Criterion :=
  match ofName? s with
  | some c => .ok c
  | none => .error (.name s)

end Criterion

/-- A division of states into groups. -/
abbrev Partition := List StateSet

namespace Partition

/-- The number of states in all groups. -/
def stateCount (P : Partition) : Nat := (P.flatMap StateSet.toList).length

/-- The place of the group of a state, and the number of groups if there is none. -/
def groupIndex (P : Partition) (q : Int) : Nat := P.findIdx fun G => q ∈ G

/-- What a transition to `q` counts for. -/
def weight (P : Partition) : Criterion → Int → Int
  | .targetGroup, q => P.groupIndex q
  | .targetState, q => q

/-- What decides whether a state stays with another one: its symbols in ascending order, each
with what the transition counts for. -/
def signature (P : Partition) (criterion : Criterion) (T : Table) (q : Int) :
    List (String × Int) :=
  ((T.row q).entries.map fun e => (e.1, P.weight criterion e.2)).mergeSort
    fun a b => decide (a.1 ≤ b.1)

/-! ## Splitting -/

/-- Splits a set by the value of a function; the parts come in the order of their least members. -/
def splitBy {κ : Type} [DecidableEq κ] (f : Int → κ) (G : StateSet) : List StateSet :=
  (G.toList.map f).eraseDups.map fun k => G.filter fun q => f q = k

/-- One pass: every group is split by the signatures of its members. -/
def refine (P : Partition) (criterion : Criterion) (T : Table) : Partition :=
  P.flatMap fun G =>
    let known := G.toList.map fun q => (q, P.signature criterion T q)
    splitBy (fun q => OrderedMap.findEntry q known) G

/-! ## Sizes -/

/-- Dropping repetitions makes no list longer. -/
theorem length_eraseDups_le {κ : Type} [BEq κ] (l : List κ) : l.eraseDups.length ≤ l.length := by
  cases l with
  | nil => simp
  | cons a l =>
    rw [List.eraseDups_cons, List.length_cons, List.length_cons]
    have h1 := length_eraseDups_le (l.filter fun b => !b == a)
    have h2 := List.length_filter_le (fun b => !b == a) l
    omega
termination_by l.length
decreasing_by exact Nat.lt_succ_of_le (List.length_filter_le _ _)

theorem nodup_eraseDups {κ : Type} [BEq κ] [LawfulBEq κ] (l : List κ) : l.eraseDups.Nodup := by
  cases l with
  | nil => simp
  | cons a l =>
    rw [List.eraseDups_cons, List.nodup_cons]
    refine ⟨?_, nodup_eraseDups (l.filter fun b => !b == a)⟩
    rw [List.mem_eraseDups, List.mem_filter]
    simp
termination_by l.length
decreasing_by exact Nat.lt_succ_of_le (List.length_filter_le _ _)

/-- Parts by distinct values of a function have no more members than the whole. -/
theorem length_flatMap_filter_le {κ : Type} [DecidableEq κ] (f : Int → κ) {ks : List κ}
    (h : ks.Nodup) (l : List Int) :
    (ks.flatMap fun k => l.filter fun q => f q = k).length ≤ l.length := by
  induction ks generalizing l with
  | nil => simp
  | cons k ks ih =>
    rw [List.nodup_cons] at h
    -- the parts of the other values are parts of what the first value leaves over
    have hrest : ∀ k' ∈ ks, ((l.filter fun q => ¬ f q = k).filter fun q => f q = k')
        = l.filter fun q => f q = k' := by
      intro k' hk'
      rw [List.filter_filter]
      apply List.filter_congr
      intro q _
      by_cases hq : f q = k'
      · have hne : ¬ k' = k := fun e => h.1 (e ▸ hk')
        simp [hq, hne]
      · simp [hq]
    have hle := ih h.2 (l.filter fun q => ¬ f q = k)
    rw [List.flatMap_def, List.map_congr_left hrest, ← List.flatMap_def] at hle
    have hsplit := (List.filter_append_perm (fun q => decide (f q = k)) l).length_eq
    simp only [List.length_append, ← decide_not] at hsplit
    rw [List.flatMap_cons, List.length_append]
    omega

/-- The parts of a group have no more states than the group. -/
theorem stateCount_splitBy_le {κ : Type} [DecidableEq κ] (f : Int → κ) (G : StateSet) :
    stateCount (splitBy f G) ≤ G.size := by
  rw [stateCount, splitBy, List.flatMap_map]
  exact length_flatMap_filter_le f (nodup_eraseDups (G.toList.map f)) G.toList

/-- A group has no more parts than states. -/
theorem length_splitBy_le {κ : Type} [DecidableEq κ] (f : Int → κ) (G : StateSet) :
    (splitBy f G).length ≤ G.size := by
  have h := length_eraseDups_le (G.toList.map f)
  rw [List.length_map] at h
  rw [splitBy, List.length_map]
  exact h

/-- A pass adds no state. -/
theorem stateCount_refine_le (P : Partition) (criterion : Criterion) (T : Table) :
    (P.refine criterion T).stateCount ≤ P.stateCount := by
  unfold refine
  generalize P.signature criterion T = f
  induction P with
  | nil => simp
  | cons G P ih =>
    rw [List.flatMap_cons, stateCount, List.flatMap_append, List.length_append, stateCount,
      List.flatMap_cons, List.length_append]
    have h := stateCount_splitBy_le
      (fun q => OrderedMap.findEntry q (G.toList.map fun q => (q, f q))) G
    exact Nat.add_le_add h ih

/-- A pass makes no more groups than there are states. -/
theorem length_refine_le (P : Partition) (criterion : Criterion) (T : Table) :
    (P.refine criterion T).length ≤ P.stateCount := by
  unfold refine
  generalize P.signature criterion T = f
  induction P with
  | nil => simp
  | cons G P ih =>
    rw [List.flatMap_cons, List.length_append, stateCount, List.flatMap_cons,
      List.length_append]
    have h := length_splitBy_le
      (fun q => OrderedMap.findEntry q (G.toList.map fun q => (q, f q))) G
    exact Nat.add_le_add h ih

/-! ## Refinement to the end -/

/-- Repeats passes until one makes no more groups, and keeps the partition before that pass. -/
def stabilize (P : Partition) (criterion : Criterion) (T : Table) : Partition :=
  let finer := P.refine criterion T
  if finer.length ≤ P.length then P else finer.stabilize criterion T
termination_by P.stateCount - P.length
decreasing_by
  have h1 := stateCount_refine_le P criterion T
  have h2 := length_refine_le P criterion T
  have h3 : ¬ (P.refine criterion T).length ≤ P.length := by assumption
  omega

end Partition

namespace Table

/-- The final states and the others, as far as there are any. -/
def acceptanceGroups (T : Table) : Partition :=
  [T.states.filter T.isFinal, T.states.filter fun q => !T.isFinal q].filter fun G => !G.isEmpty

/-- The groups of states that the criterion leaves together. -/
def groups (T : Table) (criterion : Criterion) : Partition :=
  T.acceptanceGroups.stabilize criterion T

/-- The first target without a row, in the order in which the first pass comes to them. -/
def missingTarget? (T : Table) : Option Int :=
  (T.acceptanceGroups.flatMap fun G => G.toList.flatMap fun q => (T.row q).values).find? fun q =>
    !T.rows.contains q

/-- A target that belongs to no group, because it has no row. -/
structure Ungrouped where
  /-- The target. -/
  state : Int
deriving DecidableEq

/-- The error in words, which are the state alone. -/
def Ungrouped.message (e : Ungrouped) : String := toString e.state

/-- The groups of states that the criterion leaves together.  Where groups are compared every
target has to have one; the first that has none is reported. -/
def partition (T : Table) (criterion : Criterion) : Except Ungrouped Partition :=
  match criterion with
  | .targetState => .ok (T.groups .targetState)
  | .targetGroup =>
    match T.missingTarget? with
    | some q => .error ⟨q⟩
    | none => .ok (T.groups .targetGroup)

end Table

end LexAutomata
