import Mathlib

namespace PartialMatching

open Function Option

/-!
# Partial matchings

A partial matching pairs some points of a type with each other: it maps a
point to its partner, and the partner maps back.  Joining two free points and
cutting a pair are the only ways the pairing of a link structure changes.
-/

variable {P : Type*}

/-- Every matched point is the partner of its own partner. -/
def Mutual (peer : P → Option P) : Prop :=
  ∀ point partner, peer point = some partner → peer partner = some point

variable [DecidableEq P]

/-- Pair two points with each other. -/
def join (peer : P → Option P) (first second : P) : P → Option P :=
  update (update peer first (some second)) second (some first)

/-- Free two points. -/
def cut (peer : P → Option P) (first second : P) : P → Option P :=
  update (update peer first none) second none

variable (peer : P → Option P)

/-- The partner of every point after a join. -/
theorem join_apply (first second point : P) :
    join peer first second point = if point = second then some first
      else if point = first then some second
      else peer point := by
  simp only [join, update_apply]

/-- The partner of every point after a cut. -/
theorem cut_apply (first second point : P) :
    cut peer first second point = if point = second then none
      else if point = first then none
      else peer point := by
  simp only [cut, update_apply]

/-- A pair is cut from either of its points. -/
theorem cut_swap (first second : P) : cut peer first second = cut peer second first := by
  funext point
  rw [cut_apply, cut_apply]
  split <;> split <;> rfl

variable {first second : P} {peer : P → Option P}

/-- Cutting a pair undoes the join of two free points. -/
theorem cut_join (firstFree : peer first = none)
    (secondFree : peer second = none) : cut (join peer first second) first second = peer := by
  funext point
  rw [cut_apply, join_apply]
  split
  · rename_i isSecond
    rw [isSecond, secondFree]
  · split
    · rename_i isFirst
      rw [isFirst, firstFree]
    · rfl

/-- A pair is cut the same way before or after other points are joined. -/
theorem cut_join_of_ne {third fourth : P} (firstThird : first ≠ third)
    (firstFourth : first ≠ fourth) (secondThird : second ≠ third) (secondFourth : second ≠ fourth) :
    cut (join peer third fourth) first second = join (cut peer first second) third fourth := by
  funext point
  rw [cut_apply, join_apply, join_apply, cut_apply]
  by_cases isSecond : point = second
  · subst isSecond
    simp [secondThird, secondFourth]
  · by_cases isFirst : point = first
    · subst isFirst
      simp [firstThird, firstFourth]
    · simp [isFirst, isSecond]

/-- Joining two distinct free points keeps the pairing mutual. -/
theorem Mutual.join (mutualPeer : Mutual peer)
    (firstFree : peer first = none) (secondFree : peer second = none) (distinct : first ≠ second) :
    Mutual (PartialMatching.join peer first second) := by
  intro point partner matched
  rw [join_apply] at matched ⊢
  by_cases isSecond : point = second
  · subst isSecond
    simp only [↓reduceIte, some.injEq] at matched
    subst matched
    simp [distinct]
  · by_cases isFirst : point = first
    · subst isFirst
      simp only [isSecond, ↓reduceIte, some.injEq] at matched
      subst matched
      simp
    · simp only [isSecond, isFirst, ↓reduceIte] at matched
      have back := mutualPeer point partner matched
      have notSecond : partner ≠ second := by
        intro same
        subst same
        rw [secondFree] at back
        cases back
      have notFirst : partner ≠ first := by
        intro same
        subst same
        rw [firstFree] at back
        cases back
      simpa [notSecond, notFirst] using back

/-- Cutting a matched pair keeps the pairing mutual. -/
theorem Mutual.cut (mutualPeer : Mutual peer)
    (paired : peer first = some second) : Mutual (PartialMatching.cut peer first second) := by
  have back := mutualPeer first second paired
  intro point partner matched
  rw [cut_apply] at matched ⊢
  by_cases isSecond : point = second
  · simp [isSecond] at matched
  · by_cases isFirst : point = first
    · simp [isFirst] at matched
    · simp only [isSecond, isFirst, ↓reduceIte] at matched
      have partnerBack := mutualPeer point partner matched
      have notSecond : partner ≠ second := by
        intro same
        subst same
        rw [back, some.injEq] at partnerBack
        exact isFirst partnerBack.symm
      have notFirst : partner ≠ first := by
        intro same
        subst same
        rw [paired, some.injEq] at partnerBack
        exact isSecond partnerBack.symm
      simpa [notSecond, notFirst] using partnerBack

end PartialMatching
