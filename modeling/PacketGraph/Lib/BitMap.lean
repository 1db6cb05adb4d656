import PacketGraph.Lib.BitScan

namespace BitMap

open BitScan BitVec Function List

/-!
# Arrays of words as sets of positions

Position `p` of an array of `w`-bit words is bit `p % w` of word `p / w`.  The
set positions of a range of words, visited word by word and in each word from
the lowest bit, come out in increasing order.
-/

variable {w : Nat}

/-- Is a position set? -/
def testBit (words : Nat → BitVec w) (position : Nat) : Bool :=
  (words (position / w)).getLsbD (position % w)

/-- The array with one position set. -/
def setBit (words : Nat → BitVec w) (position : Nat) : Nat → BitVec w :=
  update words (position / w) (words (position / w) ||| (1#w <<< (position % w)))

/-- The array with one position toggled. -/
def flipBit (words : Nat → BitVec w) (position : Nat) : Nat → BitVec w :=
  update words (position / w) (words (position / w) ^^^ (1#w <<< (position % w)))

/-- The set positions of one word of the array. -/
def wordPositions (index : Nat) (word : BitVec w) : List Nat :=
  (lowBits word).map (fun place => index * w + place)

/-- The set positions of `count` words from word `start` on. -/
def positionsFrom (words : Nat → BitVec w) (start : Nat) :
    Nat → List Nat
  | 0 => []
  | count + 1 => wordPositions start (words start) ++ positionsFrom words (start + 1) count

/-- Setting a position sets that one and no other. -/
theorem testBit_setBit (positive : 0 < w) (words : Nat → BitVec w) (position other : Nat) :
    testBit (setBit words position) other = (testBit words other || decide (other = position)) := by
  unfold testBit setBit
  by_cases sameWord : other / w = position / w
  · rw [sameWord, update_self, getLsbD_or, getLsbD_one_shiftLeft]
    have inside : other % w < w := Nat.mod_lt other positive
    by_cases same : other = position
    · subst same
      simp [inside]
    · have samePlace : ¬ other % w = position % w := by
        intro equal
        apply same
        rw [← Nat.div_add_mod other w, ← Nat.div_add_mod position w, sameWord, equal]
      simp [same, samePlace]
  · have distinct : other ≠ position := by
      intro equal
      exact sameWord (by rw [equal])
    simp [update_of_ne sameWord, distinct]

variable {words : Nat → BitVec w} {position : Nat}

/-- Toggling a set position clears that one and no other. -/
theorem testBit_flipBit (positive : 0 < w) (isSet : testBit words position = true) (other : Nat) :
    testBit (flipBit words position) other =
      (testBit words other && decide (other ≠ position)) := by
  unfold testBit at isSet
  unfold testBit flipBit
  by_cases sameWord : other / w = position / w
  · rw [sameWord, update_self, getLsbD_xor, getLsbD_one_shiftLeft]
    have inside : other % w < w := Nat.mod_lt other positive
    by_cases same : other = position
    · subst same
      simp [inside, isSet]
    · have samePlace : ¬ other % w = position % w := by
        intro equal
        apply same
        rw [← Nat.div_add_mod other w, ← Nat.div_add_mod position w, sameWord, equal]
      simp [same, samePlace]
  · have distinct : other ≠ position := by
      intro equal
      exact sameWord (by rw [equal])
    simp [update_of_ne sameWord, distinct]

/-- Toggling a position leaves every other word alone. -/
theorem flipBit_of_ne (words : Nat → BitVec w) {index : Nat} (elsewhere : index ≠ position / w) :
    flipBit words position index = words index :=
  update_of_ne elsewhere _ _

/-- The zero word has no set position. -/
@[simp] theorem wordPositions_zero (index : Nat) : wordPositions index (0#w) = [] := by
  simp [wordPositions, lowBits_eq_setPositions]

/-- The positions of a nonzero word start with its lowest bit. -/
theorem wordPositions_eq_cons (index : Nat) {word : BitVec w} (nonzero : word ≠ 0#w) :
    wordPositions index word = (index * w + lowest word) ::
        wordPositions index (clear word (lowest word)) := by
  simp only [wordPositions, lowBits_eq_setPositions]
  rw [setPositions_eq_cons nonzero, map_cons]

/-- Membership in the positions of one word. -/
theorem mem_wordPositions {index : Nat} {word : BitVec w} :
    position ∈ wordPositions index word ↔
      position / w = index ∧ word.getLsbD (position % w) = true := by
  unfold wordPositions
  rw [mem_map]
  constructor
  · rintro ⟨place, member, rfl⟩
    rw [mem_lowBits] at member
    have inside : place < w := lt_of_getLsbD member
    have positive : 0 < w := Nat.zero_lt_of_lt inside
    have split : index * w + place = place + w * index := by rw [Nat.mul_comm, Nat.add_comm]
    rw [split, Nat.add_mul_div_left _ _ positive, Nat.add_mul_mod_self_left,
      Nat.div_eq_of_lt inside, Nat.mod_eq_of_lt inside, Nat.zero_add]
    exact ⟨rfl, member⟩
  · rintro ⟨rfl, isSet⟩
    refine ⟨position % w, mem_lowBits.mpr isSet, ?_⟩
    rw [Nat.mul_comm]
    exact Nat.div_add_mod position w

/-- Membership in the positions of a range of words. -/
theorem mem_positionsFrom {start count : Nat} :
    position ∈ positionsFrom words start count ↔
      (start ≤ position / w ∧ position / w < start + count) ∧ testBit words position = true := by
  induction count generalizing start with
  | zero =>
    simp only [positionsFrom, not_mem_nil, false_iff]
    omega
  | succ count ih =>
    simp only [positionsFrom, mem_append, mem_wordPositions, ih]
    unfold testBit
    constructor
    · rintro (⟨rfl, isSet⟩ | ⟨range, isSet⟩)
      · exact ⟨by omega, isSet⟩
      · exact ⟨by omega, isSet⟩
    · rintro ⟨range, isSet⟩
      by_cases here : position / w = start
      · subst here
        exact Or.inl ⟨rfl, isSet⟩
      · exact Or.inr ⟨by omega, isSet⟩

/-- The positions of one word increase. -/
theorem wordPositions_sorted (index : Nat) (word : BitVec w) :
    (wordPositions index word).Pairwise (· < ·) := by
  unfold wordPositions
  rw [pairwise_map]
  exact (lowBits_sorted word).imp (fun lower => Nat.add_lt_add_left lower _)

/-- The positions of a range of words increase. -/
theorem positionsFrom_sorted (words : Nat → BitVec w) (start count : Nat) :
    (positionsFrom words start count).Pairwise (· < ·) := by
  induction count generalizing start with
  | zero => exact .nil
  | succ count ih =>
    refine pairwise_append.mpr ⟨wordPositions_sorted _ _, ih _, ?_⟩
    intro lower lowerMember upper upperMember
    have below := (mem_wordPositions.mp lowerMember).1
    have above := (mem_positionsFrom.mp upperMember).1.1
    by_contra notLess
    have ordered : upper / w ≤ lower / w := Nat.div_le_div_right (Nat.le_of_not_lt notLess)
    omega

/-- The positions of a range of words, word after word. -/
theorem positionsFrom_eq_flatMap (words : Nat → BitVec w) (start count : Nat) :
    positionsFrom words start count = (List.range' start count).flatMap
        (fun index => wordPositions index (words index)) := by
  induction count generalizing start with
  | zero => rfl
  | succ count ih => simp [positionsFrom, ih, List.range'_succ]

/-- The positions depend on the words of the range only. -/
theorem positionsFrom_congr {other : Nat → BitVec w} {start count : Nat}
    (agree : ∀ index, start ≤ index → index < start + count → words index = other index) :
    positionsFrom words start count = positionsFrom other start count := by
  induction count generalizing start with
  | zero => rfl
  | succ count ih =>
    simp only [positionsFrom]
    rw [agree start (Nat.le_refl start) (by omega)]
    rw [ih]
    intro index lower upper
    exact agree index (by omega) (by omega)

end BitMap
