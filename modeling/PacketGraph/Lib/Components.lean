import Mathlib

namespace Components

/-!
# Components when an edge comes or goes

The points that a relation connects, before and after an undirected edge is
added to it.  Taking an edge away is read in the other direction: the larger
relation is the smaller one with the edge added.
-/

open Relation

variable {α : Type*} {r : α → α → Prop} {first second start point : α}

/-- A relation with an undirected edge added to it. -/
def addEdge (r : α → α → Prop) (first second : α) : α → α → Prop :=
  fun start point => r start point ∨ start = first ∧ point = second ∨ start = second ∧ point = first

/-- A walk over the larger relation crosses the new edge at most once. -/
theorem reach_addEdge_iff :
    ReflTransGen (addEdge r first second) start point ↔ ReflTransGen r start point ∨
        ReflTransGen r start first ∧ ReflTransGen r second point ∨
        ReflTransGen r start second ∧ ReflTransGen r first point := by
  have lifts {start point : α} (reach : ReflTransGen r start point) :
      ReflTransGen (addEdge r first second) start point :=
    reach.lift id (fun _ _ related => .inl related)
  constructor
  · intro reach
    induction reach with
    | refl => exact .inl .refl
    | tail _ last ih =>
      rcases last with related | ⟨rfl, rfl⟩ | ⟨rfl, rfl⟩
      · rcases ih with kept | ⟨near, onward⟩ | ⟨near, onward⟩
        · exact .inl (kept.tail related)
        · exact .inr (.inl ⟨near, onward.tail related⟩)
        · exact .inr (.inr ⟨near, onward.tail related⟩)
      · -- a second crossing leads back to where the first one started
        rcases ih with kept | ⟨near, _⟩ | ⟨near, _⟩
        · exact .inr (.inl ⟨kept, .refl⟩)
        · exact .inr (.inl ⟨near, .refl⟩)
        · exact .inl near
      · rcases ih with kept | ⟨near, _⟩ | ⟨near, _⟩
        · exact .inr (.inr ⟨kept, .refl⟩)
        · exact .inl near
        · exact .inr (.inr ⟨near, .refl⟩)
  · rintro (kept | ⟨near, onward⟩ | ⟨near, onward⟩)
    · exact lifts kept
    · exact ((lifts near).tail (.inr (.inl ⟨rfl, rfl⟩))).trans (lifts onward)
    · exact ((lifts near).tail (.inr (.inr ⟨rfl, rfl⟩))).trans (lifts onward)

/-- Nothing is reached from a point without edges but the point itself. -/
theorem reach_isolated_iff (alone : ∀ other, ¬ r start other) :
    ReflTransGen r start point ↔ point = start := by
  constructor
  · intro reach
    rcases reach.cases_head with same | ⟨next, related, _⟩
    · exact same.symm
    · exact absurd related (alone next)
  · rintro rfl
    exact .refl

/-- A point without edges is reached from nowhere else. -/
theorem reach_to_isolated_iff (alone : ∀ other, ¬ r other point) :
    ReflTransGen r start point ↔ start = point := by
  constructor
  · intro reach
    rcases reach.cases_tail with same | ⟨next, _, related⟩
    · exact same.symm
    · exact absurd related (alone next)
  · rintro rfl
    exact .refl

/-- An undirected edge is added in either direction. -/
theorem addEdge_swap (r : α → α → Prop) (first second : α) :
    addEdge r first second = addEdge r second first := by
  funext start point
  unfold addEdge
  rw [or_comm (a := start = first ∧ point = second)]

/-- Edges are added in either order. -/
theorem addEdge_comm (r : α → α → Prop) (first second third fourth : α) :
    addEdge (addEdge r first second) third fourth =
      addEdge (addEdge r third fourth) first second := by
  funext start point
  simp only [addEdge]
  rw [or_right_comm]

/-- A point without edges. -/
def Isolated (r : α → α → Prop) (point : α) : Prop :=
  ∀ other, ¬ r point other ∧ ¬ r other point

section Pendant

variable {leaf other : α}

/-- What is reached once an isolated point hangs on another point. -/
theorem reach_pendant_iff (isolated : Isolated r leaf) :
    ReflTransGen (addEdge r first leaf) start point ↔ ReflTransGen r start point ∨
        ReflTransGen r start first ∧ point = leaf ∨
        start = leaf ∧ ReflTransGen r first point := by
  have outgoing : ∀ other, ¬ r leaf other := fun other => (isolated other).1
  have incoming : ∀ other, ¬ r other leaf := fun other => (isolated other).2
  rw [reach_addEdge_iff, reach_isolated_iff outgoing, reach_to_isolated_iff incoming]

/--
What is reached from one of two isolated points that hang on two points: the
points behind it, and the other one if they are reached too.
-/
theorem reach_from_pendant_iff (isolated : Isolated r leaf) (otherIsolated : Isolated r other)
    (distinct : leaf ≠ other) (notFirst : first ≠ other) (notSecond : second ≠ leaf) :
    ReflTransGen (addEdge (addEdge r first leaf) second other) leaf point ↔ point = leaf ∨
        ReflTransGen r first point ∨
        ReflTransGen r first second ∧ point = other := by
  have fromLeaf (point : α) : ReflTransGen (addEdge r first leaf) leaf point ↔
        point = leaf ∨ ReflTransGen r first point := by
    rw [reach_pendant_iff isolated, reach_isolated_iff (fun other => (isolated other).1)]
    tauto
  have fromOther (point : α) : ReflTransGen (addEdge r first leaf) other point ↔ point = other := by
    rw [reach_pendant_iff isolated, reach_isolated_iff (fun other => (otherIsolated other).1),
      reach_isolated_iff (fun other => (otherIsolated other).1)]
    simp [notFirst, distinct.symm]
  have notOther : ¬ ReflTransGen (addEdge r first leaf) leaf other := by
    rw [fromLeaf, reach_to_isolated_iff (fun other => (otherIsolated other).2)]
    simp [notFirst, distinct.symm]
  rw [reach_addEdge_iff, fromOther, fromLeaf, fromLeaf]
  simp only [notOther, false_and, or_false, notSecond, false_or]
  tauto

end Pendant

end Components
