import Mathlib

namespace Splicing

open List

/-!
# Splicing pairs of points out of a labelled relation

A relation connects points, and says by a label on which side a point is
connected to another.  Splicing a pair of points out takes away what connects
them and connects their neighbours instead, the one of the first point on the
side `out` and the one of the second point on the side `back`.

Pairs are spliced out one after the other.  When a neighbour of a pair is
itself spliced out later, what was connected for it is lost again; when no
neighbour is, the result does not depend on the order.
-/

variable {α S : Type*}

/-- Which point is connected on which side to which other point. -/
abbrev Sided (α S : Type*) := α → S → α → Prop

/-- A point is connected to another one on some side. -/
def Touches (r : Sided α S) (point other : α) : Prop :=
  ∃ side, r point side other

/-- The relation after a pair of points was spliced out. -/
def splice (out back : S) (r : Sided α S) (first second : α) : Sided α S :=
  fun point side other =>
    (r point side other ∧ (point ≠ first ∧ point ≠ second) ∧ (other ≠ first ∧ other ≠ second)) ∨
      ∃ before after, Touches r first before ∧ Touches r second after ∧
          (point = before ∧ side = out ∧ other = after ∨
            point = after ∧ side = back ∧ other = before)

/-- Connections go both ways, not to the point itself, and some are single. -/
structure Simple (single : α → Prop) (r : Sided α S) : Prop where
  back : ∀ point other, Touches r point other → Touches r other point
  loopless : ∀ point, ¬ Touches r point point
  once : ∀ point one other, single point → Touches r point one → Touches r point other → one = other

/-- Pairs are spliced out of relations in which their points are single. -/
inductive Splices (out back : S) (single : α → Prop) :
    Sided α S → List (α × α) → Sided α S → Prop where
  | none {r : Sided α S} : Splices out back single r [] r
  | next {r last : Sided α S} {first second : α} {rest : List (α × α)} (simple : Simple single r)
      (firstSingle : single first) (secondSingle : single second)
      (later : Splices out back single (splice out back r first second) rest last) :
      Splices out back single r ((first, second) :: rest) last

/-- A point of one of the pairs. -/
def Ends (pairs : List (α × α)) (point : α) : Prop :=
  ∃ pair ∈ pairs, point = pair.1 ∨ point = pair.2

/-- Two pairs without a common point. -/
def Apart (pair other : α × α) : Prop :=
  (pair.1 ≠ other.1 ∧ pair.1 ≠ other.2) ∧ pair.2 ≠ other.1 ∧ pair.2 ≠ other.2

section Step

variable {out back : S} {single : α → Prop} {r last : Sided α S}
  {first second point other : α} {side : S} {pairs : List (α × α)}

theorem ends_cons_iff {pair : α × α} {rest : List (α × α)} :
    Ends (pair :: rest) point ↔ (point = pair.1 ∨ point = pair.2) ∨ Ends rest point := by
  unfold Ends
  simp only [mem_cons, exists_eq_or_imp]

/-- A point that is connected to nothing stays so. -/
theorem splice_untouched (simple : Simple single r) (alone : ∀ other, ¬ Touches r point other)
    (other : α) : ¬ Touches (splice out back r first second) point other := by
  rintro ⟨side, ⟨kept, _⟩ | ⟨before, after, onFirst, onSecond, made⟩⟩
  · exact alone other ⟨side, kept⟩
  · rcases made with ⟨rfl, _, _⟩ | ⟨rfl, _, _⟩
    · exact alone first (simple.back first point onFirst)
    · exact alone second (simple.back second point onSecond)

/-- The points of a spliced pair can only be connected to each other. -/
def Inert (r : Sided α S) (first second : α) : Prop :=
  (∀ other, Touches r first other → other = second) ∧
    ∀ other, Touches r second other → other = first

theorem splice_inert (simple : Simple single r) (firstSingle : single first)
    (secondSingle : single second) : Inert (splice out back r first second) first second := by
  refine ⟨?_, ?_⟩
  · rintro other ⟨side, ⟨_, notFirst, _⟩ | ⟨before, after, onFirst, onSecond, made⟩⟩
    · exact absurd rfl notFirst.1
    · rcases made with ⟨rfl, _, _⟩ | ⟨rfl, _, rfl⟩
      · exact absurd onFirst (simple.loopless first)
      · exact simple.once first other second firstSingle onFirst (simple.back second first onSecond)
  · rintro other ⟨side, ⟨_, notSecond, _⟩ | ⟨before, after, onFirst, onSecond, made⟩⟩
    · exact absurd rfl notSecond.2
    · rcases made with ⟨rfl, _, rfl⟩ | ⟨rfl, _, _⟩
      · exact simple.once second other first secondSingle onSecond
          (simple.back first second onFirst)
      · exact absurd onSecond (simple.loopless second)

/-- Splicing another pair out keeps a spliced pair inert. -/
theorem Inert.splice {q1 q2 : α} (inert : Inert r q1 q2) (simple : Simple single r)
    (apart : Apart (q1, q2) (first, second)) : Inert (splice out back r first second) q1 q2 := by
  obtain ⟨⟨firstApart, secondApart⟩, firstApart', secondApart'⟩ := apart
  refine ⟨?_, ?_⟩
  · rintro other ⟨side, ⟨kept, _⟩ | ⟨before, after, onFirst, onSecond, made⟩⟩
    · exact inert.1 other ⟨side, kept⟩
    · rcases made with ⟨rfl, _, _⟩ | ⟨rfl, _, _⟩
      · exact absurd (inert.1 first (simple.back first q1 onFirst)).symm firstApart'
      · exact absurd (inert.1 second (simple.back second q1 onSecond)).symm secondApart'
  · rintro other ⟨side, ⟨kept, _⟩ | ⟨before, after, onFirst, onSecond, made⟩⟩
    · exact inert.2 other ⟨side, kept⟩
    · rcases made with ⟨rfl, _, _⟩ | ⟨rfl, _, _⟩
      · exact absurd (inert.2 first (simple.back first q2 onFirst)).symm firstApart
      · exact absurd (inert.2 second (simple.back second q2 onSecond)).symm secondApart

end Step

section Run

variable {out back : S} {single : α → Prop} {r last : Sided α S} {pairs : List (α × α)}

variable {point : α}

theorem Splices.untouched (run : Splices out back single r pairs last)
    (alone : ∀ other, ¬ Touches r point other) (other : α) : ¬ Touches last point other := by
  induction run with
  | none => exact alone other
  | next simple _ _ _ ih => exact ih (splice_untouched simple alone)

theorem Splices.keeps_inert (run : Splices out back single r pairs last) {q1 q2 : α}
    (inert : Inert r q1 q2) (apart : ∀ pair ∈ pairs, Apart (q1, q2) pair) : Inert last q1 q2 := by
  induction run with
  | none => exact inert
  | next simple _ _ _ ih =>
    exact ih (inert.splice simple (apart _ mem_cons_self))
      (fun pair member => apart pair (mem_cons_of_mem _ member))

/-- Every pair is inert once all pairs were spliced out. -/
theorem Splices.inert (run : Splices out back single r pairs last) (distinct : pairs.Pairwise Apart)
    {q1 q2 : α} (member : (q1, q2) ∈ pairs) : Inert last q1 q2 := by
  induction run with
  | none => exact absurd member not_mem_nil
  | @next r last first second rest simple firstSingle secondSingle later ih =>
      rw [pairwise_cons] at distinct
      rcases mem_cons.mp member with isHead | isLater
      · cases isHead
        exact later.keeps_inert (splice_inert simple firstSingle secondSingle) distinct.1
      · exact ih distinct.2 isLater

/--
When two points of different pairs are connected, the one that is spliced out
first is connected to nothing from then on.
-/
theorem Splices.untouched_of_neighbours (run : Splices out back single r pairs last)
    (distinct : pairs.Pairwise Apart) {other : α} (touches : Touches r point other)
    (pointEnd : Ends pairs point) (otherEnd : Ends pairs other)
    (differs : ∀ pair ∈ pairs, ¬ ((point = pair.1 ∨ point = pair.2) ∧ (other = pair.1 ∨ other =
        pair.2))) :
    (∀ neighbour, ¬ Touches last point neighbour) ∨
      ∀ neighbour, ¬ Touches last other neighbour := by
  induction run with
  | none =>
    obtain ⟨pair, member, _⟩ := pointEnd
    exact absurd member not_mem_nil
  | @next r last first second rest simple firstSingle secondSingle later ih =>
      rw [pairwise_cons] at distinct
      have notBoth := differs (first, second) mem_cons_self
      -- a spliced point whose neighbour is another point is left alone
      have alone {near far : α} (nearTouches : Touches r near far)
          (isNear : near = first ∨ near = second) (notFar : ¬ (far = first ∨ far = second))
          (neighbour : α) : ¬ Touches (splice out back r first second) near neighbour := by
        rintro ⟨side, ⟨_, notNear, _⟩ | ⟨before, after, onFirst, onSecond, made⟩⟩
        · rcases isNear with same | same
          · exact notNear.1 same
          · exact notNear.2 same
        · rcases isNear with rfl | rfl
          · have isFar := simple.once near before far firstSingle onFirst nearTouches
            rcases made with ⟨same, _, _⟩ | ⟨rfl, _, _⟩
            · exact simple.loopless near (same ▸ onFirst)
            · have isSecond := simple.once near second far firstSingle
                (simple.back second near onSecond) nearTouches
              exact notFar (.inr isSecond.symm)
          · have isFar := simple.once near after far secondSingle onSecond nearTouches
            rcases made with ⟨rfl, _, _⟩ | ⟨same, _, _⟩
            · have isFirst := simple.once near first far secondSingle
                (simple.back first near onFirst) nearTouches
              exact notFar (.inl isFirst.symm)
            · exact simple.loopless near (same ▸ onSecond)
      by_cases pointHere : point = first ∨ point = second
      · refine .inl (later.untouched ?_)
        exact alone touches pointHere (fun otherHere => notBoth ⟨pointHere, otherHere⟩)
      · by_cases otherHere : other = first ∨ other = second
        · refine .inr (later.untouched ?_)
          exact alone (simple.back point other touches) otherHere pointHere
        · obtain ⟨side, connected⟩ := touches
          refine ih distinct.2 ⟨side, .inl ⟨connected, ?_, ?_⟩⟩
            ((ends_cons_iff.mp pointEnd).resolve_left pointHere)
            ((ends_cons_iff.mp otherEnd).resolve_left otherHere)
            (fun pair member => differs pair (mem_cons_of_mem _ member))
          · exact not_or.mp pointHere
          · exact not_or.mp otherHere

/-- No neighbour of a pair with two neighbours is a point of a pair. -/
def Clean (r : Sided α S) (pairs : List (α × α)) : Prop :=
  ∀ pair ∈ pairs, ∀ before after, Touches r pair.1 before → Touches r pair.2 after →
    ¬ Ends pairs before ∧ ¬ Ends pairs after

/-- The relation once all pairs were spliced out at the same time. -/
def spliceAll (out back : S) (r : Sided α S) (pairs : List (α × α)) : Sided α S :=
  fun point side other =>
    (r point side other ∧ ¬ Ends pairs point ∧ ¬ Ends pairs other) ∨ ∃ pair ∈ pairs, ∃ before after,
        Touches r pair.1 before ∧ Touches r pair.2 after ∧
          (point = before ∧ side = out ∧ other = after ∨
            point = after ∧ side = back ∧ other = before)

variable {rest : List (α × α)}

theorem Clean.later {pair : α × α} (clean : Clean r (pair :: rest)) :
    ∀ other ∈ rest, ∀ before after, Touches r other.1 before → Touches r other.2 after →
      ¬ Ends rest before ∧ ¬ Ends rest after := by
  intro other member before after onFirst onSecond
  obtain ⟨beforeFree, afterFree⟩ :=
    clean other (mem_cons_of_mem _ member) before after onFirst onSecond
  rw [ends_cons_iff, not_or] at beforeFree afterFree
  exact ⟨beforeFree.2, afterFree.2⟩

/-- A later pair loses only its connections to the pair that is spliced out. -/
theorem Clean.touches_splice_iff {first second other : α}
    (clean : Clean r ((first, second) :: rest)) (later : Ends rest point)
    (notPoint : point ≠ first ∧ point ≠ second) :
    Touches (splice out back r first second) point other ↔
      Touches r point other ∧ other ≠ first ∧ other ≠ second := by
  constructor
  · rintro ⟨side, ⟨kept, _, notOther⟩ | ⟨before, after, onFirst, onSecond, made⟩⟩
    · exact ⟨⟨side, kept⟩, notOther⟩
    · obtain ⟨beforeFree, afterFree⟩ := clean _ mem_cons_self before after onFirst onSecond
      rcases made with ⟨rfl, _, _⟩ | ⟨rfl, _, _⟩
      · exact absurd (ends_cons_iff.mpr (.inr later)) beforeFree
      · exact absurd (ends_cons_iff.mpr (.inr later)) afterFree
  · rintro ⟨⟨side, connected⟩, notOther⟩
    exact ⟨side, .inl ⟨connected, notPoint, notOther⟩⟩

/-- Splicing out a pair and then the others splices all of them out. -/
theorem Clean.spliceAll_splice {first second : α} (clean : Clean r ((first, second) :: rest))
    (apart : ∀ pair ∈ rest, Apart (first, second) pair) :
    spliceAll out back (splice out back r first second) rest =
      spliceAll out back r ((first, second) :: rest) := by
  have notSpliced {pair : α × α} (member : pair ∈ rest) : (pair.1 ≠ first ∧ pair.1 ≠ second) ∧
        pair.2 ≠ first ∧ pair.2 ≠ second := by
    obtain ⟨⟨firstFirst, firstSecond⟩, secondFirst, secondSecond⟩ := apart pair member
    exact ⟨⟨firstFirst.symm, secondFirst.symm⟩, firstSecond.symm, secondSecond.symm⟩
  have onLater {pair : α × α} (member : pair ∈ rest) (other : α) :
      (Touches (splice out back r first second) pair.1 other ↔
          Touches r pair.1 other ∧ other ≠ first ∧ other ≠ second) ∧
        (Touches (splice out back r first second) pair.2 other ↔
          Touches r pair.2 other ∧ other ≠ first ∧ other ≠ second) :=
    ⟨clean.touches_splice_iff ⟨pair, member, .inl rfl⟩ (notSpliced member).1,
      clean.touches_splice_iff ⟨pair, member, .inr rfl⟩ (notSpliced member).2⟩
  funext point side other
  refine propext ⟨?_, ?_⟩
  · rintro (⟨⟨kept, notPoint, notOther⟩ | made, pointFree, otherFree⟩ |
      ⟨pair, member, before, after, onFirst, onSecond, made⟩)
    · refine .inl ⟨kept, ?_, ?_⟩
      · rw [ends_cons_iff]
        exact not_or.mpr ⟨not_or.mpr notPoint, pointFree⟩
      · rw [ends_cons_iff]
        exact not_or.mpr ⟨not_or.mpr notOther, otherFree⟩
    · exact .inr ⟨_, mem_cons_self, made⟩
    · exact .inr ⟨pair, mem_cons_of_mem _ member, before, after,
        (((onLater member before).1).mp onFirst).1,
        (((onLater member after).2).mp onSecond).1, made⟩
  · rintro (⟨kept, pointFree, otherFree⟩ | ⟨pair, member, before, after, onFirst, onSecond, made⟩)
    · rw [ends_cons_iff, not_or, not_or] at pointFree otherFree
      exact .inl ⟨.inl ⟨kept, pointFree.1, otherFree.1⟩, pointFree.2, otherFree.2⟩
    · obtain ⟨beforeFree, afterFree⟩ := clean pair member before after onFirst onSecond
      rw [ends_cons_iff, not_or, not_or] at beforeFree afterFree
      rcases mem_cons.mp member with rfl | isLater
      · refine .inl ⟨.inr ⟨before, after, onFirst, onSecond, made⟩, ?_⟩
        rcases made with ⟨rfl, _, rfl⟩ | ⟨rfl, _, rfl⟩
        · exact ⟨beforeFree.2, afterFree.2⟩
        · exact ⟨afterFree.2, beforeFree.2⟩
      · exact .inr ⟨pair, isLater, before, after,
          ((onLater isLater before).1).mpr ⟨onFirst, beforeFree.1⟩,
          ((onLater isLater after).2).mpr ⟨onSecond, afterFree.1⟩, made⟩

/-- When no neighbour is spliced out, the order of the pairs is of no account. -/
theorem Splices.eq_spliceAll (run : Splices out back single r pairs last)
    (distinct : pairs.Pairwise Apart) (clean : Clean r pairs) :
    last = spliceAll out back r pairs := by
  induction run with
  | none =>
    funext point side other
    simp [spliceAll, Ends]
  | @next r last first second rest simple _ _ later ih =>
    rw [pairwise_cons] at distinct
    rw [← clean.spliceAll_splice distinct.1]
    refine ih distinct.2 ?_
    intro pair member before after onFirst onSecond
    have notSpliced := distinct.1 pair member
    refine clean.later pair member before after ?_ ?_
    · exact ((clean.touches_splice_iff ⟨pair, member, .inl rfl⟩
        ⟨notSpliced.1.1.symm, notSpliced.2.1.symm⟩).mp onFirst).1
    · exact ((clean.touches_splice_iff ⟨pair, member, .inr rfl⟩
        ⟨notSpliced.1.2.symm, notSpliced.2.2.symm⟩).mp onSecond).1

/-- The points of the pairs are connected to nothing afterwards. -/
theorem Clean.untouched (clean : Clean r pairs) (isEnd : Ends pairs point) (other : α) :
    ¬ Touches (spliceAll out back r pairs) point other := by
  rintro ⟨side, ⟨_, notEnd, _⟩ | ⟨pair, member, before, after, onFirst, onSecond, made⟩⟩
  · exact notEnd isEnd
  · obtain ⟨beforeFree, afterFree⟩ := clean pair member before after onFirst onSecond
    rcases made with ⟨rfl, _, _⟩ | ⟨rfl, _, _⟩
    · exact beforeFree isEnd
    · exact afterFree isEnd

instance : Std.Symm (Apart : α × α → α × α → Prop) where
  symm := fun _ _ apart => ⟨⟨apart.1.1.symm, apart.2.1.symm⟩, apart.1.2.symm, apart.2.2.symm⟩

/-- A point is in one pair only. -/
theorem eq_of_shared (distinct : pairs.Pairwise Apart) {pair other : α × α}
    (pairIn : pair ∈ pairs) (otherIn : other ∈ pairs) (inPair : point = pair.1 ∨ point = pair.2)
    (inOther : point = other.1 ∨ point = other.2) : pair = other := by
  by_contra differs
  have apart := distinct.forall pairIn otherIn differs
  rcases inPair with rfl | rfl
  · rcases inOther with same | same
    · exact apart.1.1 same
    · exact apart.1.2 same
  · rcases inOther with same | same
    · exact apart.2.1 same
    · exact apart.2.2 same

/--
If the neighbours of every pair end up connected, then none of them was
spliced out.
-/
theorem Splices.clean_of_joined (run : Splices out back single r pairs last)
    (distinct : pairs.Pairwise Apart) (simple : Simple single r)
    (across : ∀ pair ∈ pairs, ¬ Touches r pair.1 pair.2)
    (joined : ∀ pair ∈ pairs, ∀ before after, Touches r pair.1 before → Touches r pair.2 after →
        Touches last before after ∧ Touches last after before) : Clean r pairs := by
  rintro ⟨q1, q2⟩ member before after onFirst onSecond
  obtain ⟨there, back⟩ := joined (q1, q2) member before after onFirst onSecond
  -- the neighbour of a pair is not one of its points
  have beforeOutside : ¬ (before = q1 ∨ before = q2) := by
    rintro (rfl | rfl)
    · exact simple.loopless before onFirst
    · exact across (q1, before) member onFirst
  have afterOutside : ¬ (after = q1 ∨ after = q2) := by
    rintro (rfl | rfl)
    · exact across (after, q2) member (simple.back q2 after onSecond)
    · exact simple.loopless after onSecond
  have beforeFree : ¬ Ends pairs before := by
    rintro ⟨⟨p1, p2⟩, otherIn, isPoint⟩
    have inert := run.inert distinct otherIn
    -- the other pair has the neighbours `q1` and `q2`, which end up joined
    have queuesJoined : Touches last q1 q2 := by
      rcases isPoint with rfl | rfl
      · obtain rfl := inert.1 after there
        exact (joined _ otherIn q1 q2 (simple.back q1 before onFirst)
          (simple.back q2 after onSecond)).1
      · obtain rfl := inert.2 after there
        exact (joined _ otherIn q2 q1 (simple.back q2 after onSecond)
          (simple.back q1 before onFirst)).2
    have alone :=
      run.untouched_of_neighbours distinct onFirst
        ⟨(q1, q2), member, .inl rfl⟩ ⟨(p1, p2), otherIn, isPoint⟩ (by
          rintro pair pairIn ⟨holdsFirst, holdsBefore⟩
          have same := eq_of_shared distinct pairIn member holdsFirst (.inl rfl)
          subst same
          exact beforeOutside holdsBefore)
    rcases alone with firstAlone | beforeAlone
    · exact firstAlone q2 queuesJoined
    · exact beforeAlone after there
  refine ⟨beforeFree, ?_⟩
  -- a spliced neighbour on the other side is inert beside this one
  rintro ⟨⟨p1, p2⟩, otherIn, isPoint⟩
  have inert := run.inert distinct otherIn
  rcases isPoint with rfl | rfl
  · exact beforeFree ⟨_, otherIn, .inr (inert.1 before back)⟩
  · exact beforeFree ⟨_, otherIn, .inl (inert.2 before back)⟩

end Run

end Splicing
