import Mathlib

namespace Search

open List

/-!
# Exploring a finite graph with a list of work

A search keeps a list of points to visit and a list of points it is done with.
It moves the first point to visit to the ones done with and adds the
neighbours that it has not met yet.  It ends with the points that can be
reached from those it started with.
-/

variable {α : Type*}

/-- The loop of a search, bounded by the number of its rounds. -/
def search (expand : List α → List α → α → List α) :
    Nat → List α → List α → Option (List α)
  | _, [], done => some done
  | 0, _ :: _, _ => none
  | rounds + 1, point :: todo, done =>
    search expand rounds (expand todo (point :: done) point) (point :: done)

/-- Adding neighbours adds those that are not met yet, each of them once. -/
structure Expands (adjacent : α → α → Prop) (expand : List α → List α → α → List α) : Prop where
  mem : ∀ todo done point other, other ∈ expand todo done point ↔
        other ∈ todo ∨ other ∉ done ∧ adjacent point other
  nodup : ∀ todo done point, todo.Nodup → (expand todo done point).Nodup

/-- What holds of the two lists of a search between its rounds. -/
structure Searching (adjacent : α → α → Prop) (todo done : List α) : Prop where
  distinct : (todo ++ done).Nodup
  closed : ∀ point ∈ done, ∀ other, adjacent point other → other ∈ todo ∨ other ∈ done

variable {adjacent : α → α → Prop}
variable {expand : List α → List α → α → List α}
variable {todo done : List α} {point : α}

/-- One round of a search. -/
theorem Searching.round (expands : Expands adjacent expand)
    (searching : Searching adjacent (point :: todo) done) :
    Searching adjacent (expand todo (point :: done) point) (point :: done) := by
  obtain ⟨todoNodup, doneNodup, disjoint⟩ := nodup_append.mp searching.distinct
  obtain ⟨pointFresh, restNodup⟩ := nodup_cons.mp todoNodup
  have notDone : point ∉ done := fun member => disjoint point mem_cons_self point member rfl
  refine ⟨nodup_append.mpr ⟨expands.nodup _ _ _ restNodup,
    nodup_cons.mpr ⟨notDone, doneNodup⟩, ?_⟩, ?_⟩
  · rintro other member same isDone rfl
    rcases (expands.mem _ _ _ _).mp member with inTodo | ⟨notMet, _⟩
    · rcases mem_cons.mp isDone with rfl | old
      · exact pointFresh inTodo
      · exact disjoint other (mem_cons_of_mem _ inTodo) other old rfl
    · exact notMet isDone
  · intro visited isDone other isAdjacent
    by_cases met : other ∈ point :: done
    · exact .inr met
    · refine .inl ((expands.mem _ _ _ _).mpr ?_)
      rcases mem_cons.mp isDone with rfl | old
      · exact .inr ⟨met, isAdjacent⟩
      · rcases searching.closed visited old other isAdjacent with
          inTodo | wasDone
        · rcases mem_cons.mp inTodo with rfl | rest
          · exact absurd mem_cons_self met
          · exact .inl rest
        · exact absurd (mem_cons_of_mem _ wasDone) met

/-- What can be reached from a point done with is done with or ahead. -/
theorem Searching.reach (searching : Searching adjacent todo done) {other : α}
    (isDone : point ∈ done) (reach : Relation.ReflTransGen adjacent point other) :
    other ∈ done ∨ ∃ start ∈ todo, Relation.ReflTransGen adjacent start other := by
  induction reach using Relation.ReflTransGen.head_induction_on with
  | refl => exact .inl isDone
  | @head first second isAdjacent rest ih =>
    rcases searching.closed first isDone second isAdjacent with
      inTodo | alsoDone
    · exact .inr ⟨second, inTodo, rest⟩
    · exact ih alsoDone

/-- A search that has room for all points ends with those it can reach. -/
theorem search_returns [Fintype α] (expands : Expands adjacent expand) {rounds : Nat}
    (searching : Searching adjacent todo done) (enough : Fintype.card α ≤ rounds + done.length) :
    ∃ found, search expand rounds todo done = some found ∧ found.Nodup ∧ ∀ other, other ∈ found ↔
            other ∈ done ∨ ∃ start ∈ todo, Relation.ReflTransGen adjacent start other := by
  induction rounds generalizing todo done with
  | zero =>
    cases todo with
    | nil =>
      refine ⟨done, rfl, searching.distinct, fun other => ?_⟩
      simp
    | cons point todo =>
      have small := searching.distinct.length_le_card
      rw [length_append, length_cons] at small
      omega
  | succ rounds ih =>
    cases todo with
    | nil =>
      refine ⟨done, rfl, searching.distinct, fun other => ?_⟩
      simp
    | cons point todo =>
      have next := searching.round expands
      obtain ⟨found, isFound, distinct, mem⟩ :=
        ih next (by
          rw [length_cons]
          omega)
      refine ⟨found, isFound, distinct, fun other => (mem other).trans ?_⟩
      constructor
      · rintro (isDone | ⟨start, inTodo, reach⟩)
        · rcases mem_cons.mp isDone with rfl | old
          · exact .inr ⟨other, mem_cons_self, .refl⟩
          · exact .inl old
        · rcases (expands.mem _ _ _ _).mp inTodo with
            old | ⟨_, isAdjacent⟩
          · exact .inr ⟨start, mem_cons_of_mem _ old, reach⟩
          · exact .inr ⟨point, mem_cons_self, reach.head isAdjacent⟩
      · rintro (old | ⟨start, inTodo, reach⟩)
        · exact .inl (mem_cons_of_mem _ old)
        · rcases mem_cons.mp inTodo with rfl | rest
          · exact next.reach mem_cons_self reach
          · exact .inr ⟨start, (expands.mem _ _ _ _).mpr (.inl rest), reach⟩

end Search
