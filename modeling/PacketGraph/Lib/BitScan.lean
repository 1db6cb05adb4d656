import Mathlib

namespace BitScan

open BitVec List

/-!
# Visiting the set bits of a word

Many loops take the lowest set bit of a word, clear it and go on until the
word is zero.  `lowBits` is that loop, returning the visited positions in
order.  It is related once to the sorted list of set positions, so that a loop
body can be studied as a fold over a plain list.
-/

variable {w : Nat}

/-- Position of the lowest set bit, meaningful for a nonzero word only. -/
def lowest (word : BitVec w) : Nat :=
  word.ctz.toNat

/-- The word with one bit cleared. -/
def clear (word : BitVec w) (position : Nat) : BitVec w :=
  word &&& ~~~(1#w <<< position)

/-- The lowest-bit loop with a bound on the number of its rounds. -/
def lowBitsUpTo : Nat → BitVec w → List Nat
  | 0, _ => []
  | rounds + 1, word =>
    if word = 0#w then [] else lowest word :: lowBitsUpTo rounds (clear word (lowest word))

/-- Positions visited by the lowest-bit loop; `w` rounds always suffice. -/
def lowBits (word : BitVec w) : List Nat :=
  lowBitsUpTo w word

/-- The set positions of a word in increasing order. -/
def setPositions (word : BitVec w) : List Nat :=
  (List.range w).filter word.getLsbD

variable {word : BitVec w}

/-- The lowest position of a nonzero word is set. -/
theorem getLsbD_lowest (nonzero : word ≠ 0#w) : word.getLsbD (lowest word) = true :=
  getLsbD_true_ctz_of_ne_zero nonzero

/-- The lowest position of a nonzero word lies inside the word. -/
theorem lowest_lt (nonzero : word ≠ 0#w) : lowest word < w :=
  lt_of_getLsbD (getLsbD_lowest nonzero)

variable {position : Nat}

/-- No bit is set below the lowest position. -/
theorem getLsbD_of_lt_lowest (below : position < lowest word) : word.getLsbD position = false :=
  getLsbD_false_of_lt_ctz below

/-- The word `1 << position` has that bit set and no other. -/
theorem getLsbD_one_shiftLeft (position other : Nat) :
    (1#w <<< position).getLsbD other = (decide (other < w) && decide (other = position)) := by
  rw [getLsbD_shiftLeft, getLsbD_one]
  by_cases inside : other < w
  · rcases Nat.lt_trichotomy other position with below | same | above
    · have distinct : other ≠ position := Nat.ne_of_lt below
      simp [below, distinct]
    · subst same
      simp [inside, Nat.zero_lt_of_lt inside]
    · have distinct : other ≠ position := Nat.ne_of_gt above
      have gap : other - position ≠ 0 := Nat.sub_ne_zero_of_lt above
      simp [distinct, gap]
  · simp [inside]

/-- Setting a position changes that bit and no other. -/
theorem getLsbD_or_one_shiftLeft (word : BitVec w) (position other : Nat) :
    (word ||| (1#w <<< position)).getLsbD other = (word.getLsbD other ||
        (decide (other < w) && decide (other = position))) := by
  rw [getLsbD_or, getLsbD_one_shiftLeft]

/-- Clearing a position changes that bit and no other. -/
@[simp] theorem getLsbD_clear (word : BitVec w) (position other : Nat) :
    (clear word position).getLsbD other = (word.getLsbD other && decide (other ≠ position)) := by
  unfold clear
  rw [getLsbD_and, getLsbD_not, getLsbD_one_shiftLeft]
  by_cases inside : other < w
  · simp [inside]
  · have outside : word.getLsbD other = false := getLsbD_of_ge word other (Nat.le_of_not_lt inside)
    simp [outside]

/-- A word is zero exactly when none of its bits is set. -/
theorem eq_zero_iff : word = 0#w ↔ ∀ position, word.getLsbD position = false := by
  constructor
  · intro isZero position
    simp [isZero]
  · intro noBit
    apply eq_of_getLsbD_eq
    intro position _
    simp [noBit position]

/-- A nonzero word starts its set positions with its lowest one. -/
theorem setPositions_eq_cons (nonzero : word ≠ 0#w) :
    setPositions word = lowest word :: setPositions (clear word (lowest word)) := by
  have inside : lowest word < w := lowest_lt nonzero
  obtain ⟨rest, width⟩ : ∃ rest, w = lowest word + 1 + rest := ⟨w - (lowest word + 1), by omega⟩
  have split : List.range w = List.range (lowest word) ++ (lowest word ::
            (List.range rest).map (fun later => lowest word + 1 + later)) := by
    conv_lhs => rw [width]
    rw [range_add, range_succ]
    simp
  have below : (List.range (lowest word)).filter word.getLsbD = [] := by
    rw [filter_eq_nil_iff]
    intro position member
    simp [getLsbD_of_lt_lowest (mem_range.mp member)]
  have belowCleared : (List.range (lowest word)).filter (clear word (lowest word)).getLsbD =
        [] := by
    rw [filter_eq_nil_iff]
    intro position member
    simp [getLsbD_of_lt_lowest (mem_range.mp member)]
  have above : ((List.range rest).map (fun later => lowest word + 1 + later)).filter word.getLsbD =
        ((List.range rest).map (fun later => lowest word + 1 + later)).filter
          (clear word (lowest word)).getLsbD := by
    apply filter_congr
    intro position member
    obtain ⟨later, _, rfl⟩ := mem_map.mp member
    have other : lowest word + 1 + later ≠ lowest word := by omega
    simp [other]
  unfold setPositions
  rw [split, filter_append, filter_append, below, belowCleared,
    filter_cons_of_pos (getLsbD_lowest nonzero), filter_cons_of_neg (by simp), above]
  simp

/-- The zero word has no set position. -/
@[simp] theorem setPositions_zero : setPositions (0#w) = [] := by
  simp [setPositions]

/-- The bounded loop visits the set positions when it has enough rounds. -/
theorem lowBitsUpTo_eq_setPositions (rounds : Nat) (word : BitVec w)
    (enough : (setPositions word).length ≤ rounds) :
    lowBitsUpTo rounds word = setPositions word := by
  induction rounds generalizing word with
  | zero =>
    have empty : setPositions word = [] := eq_nil_of_length_eq_zero (Nat.le_zero.mp enough)
    simp [lowBitsUpTo, empty]
  | succ rounds ih =>
    by_cases isZero : word = 0#w
    · simp [lowBitsUpTo, isZero]
    · have shape := setPositions_eq_cons isZero
      rw [shape, length_cons] at enough
      have rest := ih (clear word (lowest word)) (by omega)
      simp only [lowBitsUpTo, isZero, ↓reduceIte]
      rw [rest, shape]

/-- The lowest-bit loop visits exactly the set positions, in order. -/
theorem lowBits_eq_setPositions (word : BitVec w) : lowBits word = setPositions word := by
  apply lowBitsUpTo_eq_setPositions
  calc
    (setPositions word).length ≤ (List.range w).length :=
      length_filter_le _ _
    _ = w := length_range

/-- A position is visited exactly when its bit is set. -/
@[simp] theorem mem_lowBits : position ∈ lowBits word ↔ word.getLsbD position = true := by
  rw [lowBits_eq_setPositions]
  simp only [setPositions, mem_filter, mem_range]
  constructor
  · intro member
    exact member.2
  · intro isSet
    exact ⟨lt_of_getLsbD isSet, isSet⟩

/-- The visited positions are strictly increasing. -/
theorem lowBits_sorted (word : BitVec w) : (lowBits word).Pairwise (· < ·) := by
  rw [lowBits_eq_setPositions]
  exact List.Pairwise.filter _ pairwise_lt_range

/-- No position is visited twice. -/
theorem lowBits_nodup (word : BitVec w) : (lowBits word).Nodup :=
  (lowBits_sorted word).imp (fun lower => Nat.ne_of_lt lower)

/-- A word is known by the positions that are visited. -/
theorem eq_of_lowBits_eq {other : BitVec w} (same : lowBits word = lowBits other) :
    word = other := by
  refine eq_of_getLsbD_eq (fun position _ => ?_)
  rw [Bool.eq_iff_iff, ← mem_lowBits, ← mem_lowBits, same]

/-- Setting one more bit adds its position. -/
theorem lowBits_or_perm (inside : position < w) (unset : word.getLsbD position = false) :
    (lowBits (word ||| (1#w <<< position))).Perm (position :: lowBits word) := by
  refine (perm_ext_iff_of_nodup (lowBits_nodup _)
    (nodup_cons.mpr ⟨by simp [unset], lowBits_nodup _⟩)).mpr ?_
  intro other
  rw [mem_lowBits, getLsbD_or_one_shiftLeft, mem_cons, mem_lowBits]
  by_cases same : other = position
  · subst same
    simp [inside]
  · simp [same]

/-- Setting one more bit adds no other position. -/
theorem mem_lowBits_or {other : Nat}
    (member : other ∈ lowBits (word ||| (1#w <<< position))) :
    other = position ∨ other ∈ lowBits word := by
  rw [mem_lowBits, getLsbD_or_one_shiftLeft] at member
  rcases Bool.or_eq_true_iff.mp member with before | now
  · exact .inr (mem_lowBits.mpr before)
  · simp only [Bool.and_eq_true, decide_eq_true_eq] at now
    exact .inl now.2

/-- A position of an exclusive or is a position of one of the words. -/
theorem mem_lowBits_xor {other : BitVec w} (member : position ∈ lowBits (word ^^^ other)) :
    position ∈ lowBits word ∨ position ∈ lowBits other := by
  rw [mem_lowBits, getLsbD_xor] at member
  cases isSet : word.getLsbD position with
  | true => exact .inl (mem_lowBits.mpr isSet)
  | false =>
    rw [isSet, Bool.false_xor] at member
    exact .inr (mem_lowBits.mpr member)

/-- Flipping a set bit changes that bit and no other. -/
theorem getLsbD_flip (isSet : word.getLsbD position = true) (other : Nat) :
    (word ^^^ (1#w <<< position)).getLsbD other =
      (word.getLsbD other && decide (other ≠ position)) := by
  rw [getLsbD_xor, getLsbD_one_shiftLeft]
  by_cases same : other = position
  · subst same
    simp [isSet, lt_of_getLsbD isSet]
  · simp [same]

/-- The first positions are visited first where they are set. -/
theorem range_prefix_lowBits {count : Nat} (inside : count ≤ w)
    (firsts : ∀ position < count, word.getLsbD position = true) :
    List.range count <+: lowBits word := by
  obtain ⟨rest, rfl⟩ := Nat.exists_eq_add_of_le inside
  have low : (List.range count).filter word.getLsbD = List.range count :=
    filter_eq_self.mpr (fun position member => firsts position (mem_range.mp member))
  rw [lowBits_eq_setPositions, setPositions, range_add, filter_append, low]
  exact prefix_append _ _

/-- A word whose lowest bits are set visits the first positions. -/
theorem lowBits_eq_range {count : Nat} (inside : count ≤ w)
    (isFirsts : ∀ position < w, word.getLsbD position = decide (position < count)) :
    lowBits word = List.range count := by
  obtain ⟨rest, rfl⟩ := Nat.exists_eq_add_of_le inside
  rw [lowBits_eq_setPositions, setPositions, range_add, filter_append]
  have low : (List.range count).filter word.getLsbD = List.range count := by
    rw [filter_eq_self]
    intro position member
    have below := mem_range.mp member
    rw [isFirsts position (by omega)]
    exact decide_eq_true below
  have high : ((List.range rest).map (count + ·)).filter word.getLsbD = [] := by
    rw [filter_eq_nil_iff]
    intro position member
    obtain ⟨offset, isOffset, rfl⟩ := mem_map.mp member
    have below := mem_range.mp isOffset
    rw [isFirsts _ (by omega)]
    simp
  rw [low, high, append_nil]

end BitScan
