import Mathlib

namespace PartialMemory

/-!
# Memories of which some cells are known

A program that reads a memory of which only some cells are given decides on
the given cells when every memory with these cells leads it to the same
answer.  For a comparison with fixed cells this can be told from the known
cells: it surely holds, it possibly holds, or it fails.

Learning cells makes them known where nothing was known before.  A memory
that leads a program to a wanted answer is built by learning the cells that
the program is to find, and filling the rest.
-/

/-- The cells that are known, by their place. -/
abbrev Known (Cell : Type) := Int → Option Cell

variable {Cell : Type}

/-- A memory has the known cells. -/
def Completes (memory : Int → Cell) (known : Known Cell) : Prop :=
  ∀ place cell, known place = some cell → memory place = cell

/-- The memory with the known cells and the same cell everywhere else. -/
def fill (known : Known Cell) (rest : Cell) : Int → Cell :=
  fun place => (known place).getD rest

/-- The cells of a list, from place 0 on. -/
def ofList (cells : List Cell) : Known Cell :=
  fun place => if 0 ≤ place then cells[place.toNat]? else none

/-- A memory has some cells from a place on. -/
def Holds (memory : Int → Cell) (start : Int) (cells : List Cell) : Prop :=
  ∀ (offset : Nat) cell, cells[offset]? = some cell → memory (start + offset) = cell

/-- Every memory with the known cells has these cells. -/
def Sure (known : Known Cell) (start : Int) (cells : List Cell) : Prop :=
  ∀ (offset : Nat) cell, cells[offset]? = some cell → known (start + offset) = some cell

/-- No known cell differs from these cells. -/
def Possible (known : Known Cell) (start : Int) (cells : List Cell) : Prop :=
  ∀ (offset : Nat) cell, cells[offset]? = some cell →
    ∀ seen, known (start + offset) = some seen → seen = cell

instance [DecidableEq Cell] (known : Known Cell) (start : Int) (cells : List Cell) :
    Decidable (Sure known start cells) :=
  decidable_of_iff (∀ offset < cells.length, known (start + (offset : Nat)) = cells[offset]?) <| by
    constructor
    · intro same offset cell isCell
      rw [same offset (List.getElem?_eq_some_iff.mp isCell).1, isCell]
    · intro sure offset inside
      rw [List.getElem?_eq_getElem inside]
      exact sure offset _ (List.getElem?_eq_getElem inside)

instance [DecidableEq Cell] (known : Known Cell) (start : Int) (cells : List Cell) :
    Decidable (Possible known start cells) :=
  decidable_of_iff (∀ offset < cells.length, known (start + (offset : Nat)) = none ∨
      known (start + (offset : Nat)) = cells[offset]?) <| by
    constructor
    · intro agrees offset cell isCell seen isSeen
      have here := agrees offset (List.getElem?_eq_some_iff.mp isCell).1
      rw [isSeen, isCell] at here
      exact Option.some.inj (here.resolve_left (Option.some_ne_none _))
    · intro possible offset inside
      cases isKnown : known (start + (offset : Nat)) with
      | none => exact .inl rfl
      | some seen =>
        have isCell : cells[offset]? = some cells[offset] := List.getElem?_eq_getElem inside
        exact .inr (by rw [isCell, possible offset _ isCell seen isKnown])

/-- Make some cells known where nothing was known. -/
def learn (known : Known Cell) (start : Int) (cells : List Cell) : Known Cell :=
  fun place => match known place with
    | some cell => some cell
    | none => if start ≤ place then cells[(place - start).toNat]? else none

/-- Nothing is known from a place on. -/
def Beyond (known : Known Cell) (place : Int) : Prop :=
  ∀ later, place ≤ later → known later = none

/-- From a bound on, the known cells come before all others. -/
def Upward (known : Known Cell) (bound : Int) : Prop :=
  ∀ place, bound ≤ place → known place = none → Beyond known place

section Complete

variable {memory : Int → Cell} {known : Known Cell} {start : Int} {cells : List Cell}

theorem completes_fill (known : Known Cell) (rest : Cell) : Completes (fill known rest) known := by
  intro place cell isKnown
  simp [fill, isKnown]

theorem fill_of_unknown {place : Int} (unknown : known place = none) (rest : Cell) :
    fill known rest place = rest := by
  simp [fill, unknown]

/-- A memory has no other cells at a place. -/
theorem Holds.excludes {others : List Cell} (holds : Holds memory start cells)
    (sameLength : cells.length = others.length) (differ : cells ≠ others) :
    ¬ Holds memory start others := by
  refine fun other => differ (List.ext_getElem sameLength (fun offset inside otherInside => ?_))
  rw [← holds offset _ (List.getElem?_eq_getElem inside),
    ← other offset _ (List.getElem?_eq_getElem otherInside)]

theorem Sure.holds (sure : Sure known start cells) (completes : Completes memory known) :
    Holds memory start cells :=
  fun offset cell isCell => completes _ _ (sure offset cell isCell)

section

variable (holds : Holds memory start cells) (completes : Completes memory known)

include holds completes

theorem Holds.possible : Possible known start cells := by
  intro offset cell isCell seen isSeen
  rw [← completes _ _ isSeen]
  exact holds offset cell isCell

/-- Cells that a memory has are surely there if something is known there. -/
theorem Holds.sure (seen : ∀ offset < cells.length, known (start + (offset : Nat)) ≠ none) :
    Sure known start cells := by
  intro offset cell isCell
  obtain ⟨inside, _⟩ := List.getElem?_eq_some_iff.mp isCell
  obtain ⟨found, isFound⟩ := Option.ne_none_iff_exists'.mp (seen offset inside)
  rw [isFound, ← completes _ _ isFound, holds offset cell isCell]

end

/-- A cell that is in doubt is unknown or differs. -/
theorem not_holds_fill {rest : Cell} (inDoubt : ¬ Sure known start cells)
    (other : ∀ cell ∈ cells, rest ≠ cell)
    (elsewhere : ∀ offset < cells.length, known (start + (offset : Nat)) = none → memory (start +
        (offset : Nat)) = rest)
    (completes : Completes memory known) : ¬ Holds memory start cells := by
  intro holds
  refine inDoubt (holds.sure completes ?_)
  intro offset inside unknown
  have isCell : cells[offset]? = some cells[offset] := List.getElem?_eq_getElem inside
  refine other _ (List.getElem_mem inside) ?_
  rw [← elsewhere offset inside unknown]
  exact holds offset _ isCell

end Complete

section Learn

variable {memory : Int → Cell} {known : Known Cell} {start other : Int} {cells others : List Cell}

variable {place : Int}

theorem learn_of_known {cell : Cell} (isKnown : known place = some cell) (start : Int)
    (cells : List Cell) : learn known start cells place = some cell := by
  simp [learn, isKnown]

/-- Learning changes nothing outside of the learned places. -/
theorem learn_of_outside (outside : place < start ∨ start + cells.length ≤ place) :
    learn known start cells place = known place := by
  unfold learn
  cases isKnown : known place with
  | some cell => rfl
  | none =>
    simp only
    split
    · rw [List.getElem?_eq_none]
      omega
    · rfl

/-- What was learned is known or was known before. -/
theorem learn_ne_none (known : Known Cell) (start : Int) (cells : List Cell) (after : start ≤ place)
    (before : place < start + cells.length) : learn known start cells place ≠ none := by
  unfold learn
  cases known place with
  | some cell => simp
  | none =>
    have inside : (place - start).toNat < cells.length := by omega
    simp [after, inside]

theorem completes_of_learn (completes : Completes memory (learn known start cells)) :
    Completes memory known :=
  fun _ _ isKnown => completes _ _ (learn_of_known isKnown start cells)

theorem Holds.completes_learn (holds : Holds memory start cells)
    (completes : Completes memory known) : Completes memory (learn known start cells) := by
  intro place cell isLearned
  unfold learn at isLearned
  cases isKnown : known place with
  | some seen =>
    rw [isKnown] at isLearned
    rw [← Option.some.inj isLearned]
    exact completes _ _ isKnown
  | none =>
    rw [isKnown] at isLearned
    simp only at isLearned
    split at isLearned
    · rename_i after
      have holdsHere := holds _ _ isLearned
      have same : start + ((place - start).toNat : Int) = place := by omega
      rw [same] at holdsHere
      exact holdsHere
    · exact absurd isLearned (by simp)

/-- Cells that are possible are sure once they are learned. -/
theorem Possible.sure_learn (possible : Possible known start cells) :
    Sure (learn known start cells) start cells := by
  intro offset cell isCell
  unfold learn
  cases isKnown : known (start + offset) with
  | some seen => rw [possible offset cell isCell seen isKnown]
  | none =>
    have after : start ≤ start + (offset : Int) := by omega
    have same : (start + (offset : Int) - start).toNat = offset := by omega
    simp only [after, ↓reduceIte, same]
    exact isCell

theorem Sure.learn (sure : Sure known start cells) (other : Int) (others : List Cell) :
    Sure (PartialMemory.learn known other others) start cells :=
  fun offset cell isCell => learn_of_known (sure offset cell isCell) other others

/-- Learning elsewhere leaves cells possible. -/
theorem Possible.learn_elsewhere (possible : Possible known start cells)
    (apart : start + cells.length ≤ other ∨ other + others.length ≤ start) :
    Possible (learn known other others) start cells := by
  intro offset cell isCell seen isSeen
  obtain ⟨inside, _⟩ := List.getElem?_eq_some_iff.mp isCell
  rw [learn_of_outside (by omega)] at isSeen
  exact possible offset cell isCell seen isSeen

/-- Cells that are in doubt are missing from a memory with the known ones. -/
theorem exists_learn_not_holds (inDoubt : ¬ Sure known start cells)
    (other : ∀ cell : Cell, ∃ different, different ≠ cell) :
    ∃ place different, start ≤ place ∧ ∀ memory, Completes memory (learn known place [different]) →
          ¬ Holds memory start cells := by
  unfold Sure at inDoubt
  push Not at inDoubt
  obtain ⟨offset, cell, isCell, differs⟩ := inDoubt
  obtain ⟨different, isDifferent⟩ := other cell
  refine ⟨start + offset, different, by omega, fun memory completes holds => ?_⟩
  have here := holds offset cell isCell
  cases isKnown : known (start + offset) with
  | some seen =>
    have isSeen := completes _ _ (learn_of_known isKnown _ _)
    rw [here] at isSeen
    exact differs (by rw [isKnown, isSeen])
  | none =>
    refine isDifferent ?_
    rw [← here]
    refine (completes _ _ ?_).symm
    simp [learn, isKnown]

theorem Beyond.later {later : Int} (beyond : Beyond known place) (isLater : place ≤ later) :
    Beyond known later :=
  fun further isFurther => beyond further (by omega)

theorem Upward.mono {bound higher : Int} (upward : Upward known bound) (above : bound ≤ higher) :
    Upward known higher :=
  fun place after => upward place (by omega)

/-- Below a known place, everything down to the bound is known. -/
theorem Upward.known_below {bound top : Int} (upward : Upward known bound)
    (isKnown : known top ≠ none) (after : bound ≤ place) (below : place ≤ top) :
    known place ≠ none :=
  fun unknown => isKnown (upward place after unknown top below)

end Learn

section OfList

theorem ofList_of_neg (cells : List Cell) {place : Int} (negative : place < 0) :
    ofList cells place = none :=
  if_neg (by omega)

/-- The cells of a list come before all unknown ones. -/
theorem upward_ofList (cells : List Cell) : Upward (ofList cells) 0 := by
  intro place after unknown later isLater
  unfold ofList at unknown ⊢
  rw [if_pos after, List.getElem?_eq_none_iff] at unknown
  rw [if_pos (by omega), List.getElem?_eq_none_iff]
  omega

end OfList

end PartialMemory
