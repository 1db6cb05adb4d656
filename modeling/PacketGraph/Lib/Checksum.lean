import PacketGraph.Lib.Bytes

namespace InternetChecksum

open BitVec Bytes List

/-!
# The Internet checksum

The sum of the little-endian 16-bit words of some bytes, with its carries
folded back twice.
-/

/-- The sum of the words of some bytes, a last odd byte being a low one. -/
def wordSum : List (BitVec 8) → Nat
  | [] => 0
  | [last] => last.toNat
  | low :: high :: rest => low.toNat + 256 * high.toNat + wordSum rest

/-- Add the carries above 16 bits to the low 16 bits. -/
def addCarries (sum : Nat) : Nat :=
  sum / 65536 + sum % 65536

/-- Fold a sum into 16 bits. -/
def fold (sum : Nat) : Nat :=
  addCarries (addCarries sum) % 65536

/-- Adding the carries takes a multiple of `0xFFFF` from a sum. -/
theorem addCarries_add (sum : Nat) : addCarries sum + 65535 * (sum / 65536) = sum := by
  unfold addCarries
  omega

/-- A positive sum folds to its residue between 1 and `0xFFFF`. -/
theorem fold_of_pos {sum : Nat} (positive : 0 < sum) (small : sum < 4294967296) :
    fold sum = (sum - 1) % 65535 + 1 := by
  have first := addCarries_add sum
  have second := addCarries_add (addCarries sum)
  have once : 0 < addCarries sum ∧ addCarries sum ≤ 131070 := by
    unfold addCarries
    omega
  have twice : 0 < addCarries (addCarries sum) ∧ addCarries (addCarries sum) ≤ 65535 := by
    obtain ⟨low, high⟩ := once
    generalize addCarries sum = folded at low high
    unfold addCarries
    omega
  unfold fold
  omega

/-- With its complement a sum folds to `0xFFFF`. -/
theorem fold_add_complement {sum : Nat} (positive : 0 < sum) (small : sum < 4294901760) :
    fold (sum + (~~~(BitVec.ofNat 16 (fold sum))).toNat) = 0xFFFF := by
  have folded := fold_of_pos positive (by omega)
  rw [toNat_not, toNat_ofNat, fold_of_pos (by omega) (by omega)]
  omega

/-- Two sums that are folded apart, with their complement, fold to `0xFFFF`. -/
theorem fold_add_parts {sum other : Nat} (positive : 0 < other)
    (small : sum + other < 4294901760) {cksum : BitVec 16}
    (isCksum : cksum = ~~~(BitVec.ofNat 16 (addCarries (fold sum + fold other)))) :
    fold (sum + other + (if cksum = 0#16 then 0xFFFF#16 else cksum).toNat) = 0xFFFF := by
  have folded := fold_of_pos positive (by omega)
  have first : fold sum ≤ 65535 ∧ fold sum % 65535 = sum % 65535 := by
    by_cases empty : sum = 0
    · rw [empty]
      decide
    · rw [fold_of_pos (by omega) (by omega)]
      omega
  have carries := addCarries_add (fold sum + fold other)
  have value : cksum.toNat = 65535 - addCarries (fold sum + fold other) := by
    rw [isCksum, toNat_not, toNat_ofNat, Nat.mod_eq_of_lt (by unfold addCarries; omega)]
  have bound := (if cksum = 0#16 then 0xFFFF#16 else cksum).isLt
  rw [fold_of_pos (by omega) (by omega)]
  split
  · rename_i isZero
    rw [isZero] at value
    simp only [toNat_ofNat] at value ⊢
    unfold addCarries at carries value
    omega
  · unfold addCarries at carries value
    omega

/-- Whole words are summed on their own. -/
theorem wordSum_append {bytes : List (BitVec 8)} (even : bytes.length % 2 = 0)
    (rest : List (BitVec 8)) : wordSum (bytes ++ rest) = wordSum bytes + wordSum rest := by
  induction bytes using wordSum.induct with
  | case1 => exact (Nat.zero_add _).symm
  | case2 last => exact absurd even (Nat.one_ne_zero)
  | case3 low high bytes ih =>
    have evenRest : bytes.length % 2 = 0 := by
      simp only [length_cons] at even
      omega
    show _ + wordSum (bytes ++ rest) = _ + wordSum bytes + _
    rw [ih evenRest, ← Nat.add_assoc]

theorem wordSum_le (bytes : List (BitVec 8)) : wordSum bytes ≤ 65535 * bytes.length := by
  induction bytes using wordSum.induct with
  | case1 => exact Nat.zero_le _
  | case2 last =>
    have bound := last.isLt
    simp only [wordSum, length_singleton]
    omega
  | case3 low high bytes ih =>
    have lowBound := low.isLt
    have highBound := high.isLt
    simp only [wordSum, length_cons]
    omega

/-- The bytes of a number of 16 bits are one word. -/
theorem wordSum_bytesOf_two (value : BitVec 16) (rest : List (BitVec 8)) :
    wordSum (bytesOf 2 value ++ rest) = value.toNat + wordSum rest := by
  show (value.extractLsb' 0 8).toNat + 256 * (value.extractLsb' 8 8).toNat + wordSum rest = _
  have bound := value.isLt
  simp only [extractLsb'_toNat, Nat.shiftRight_eq_div_pow]
  omega

/-- A word that is stored in a stretch of memory counts once. -/
theorem wordSum_slice_store (memory : Memory) (address half rest : Nat) (value : BitVec 16) :
    wordSum (slice (store memory (address + 2 * half) (bytesOf 2 value)) address
        (2 * half + (2 + rest))) = wordSum (slice memory address (2 * half)) +
        (value.toNat + wordSum (slice memory (address + 2 * half + 2) rest)) := by
  rw [slice_add, slice_add, slice_store (length_bytesOf ..), wordSum_append (by simp),
    wordSum_bytesOf_two, slice_store_of_apart (.inl (Nat.le_refl _)),
    slice_store_of_apart (.inr (by simp))]

/-- The bytes of a number of 32 bits are two words. -/
theorem wordSum_bytesOf_four (value : BitVec 32) (rest : List (BitVec 8)) :
    wordSum (bytesOf 4 value ++ rest) =
      (value.extractLsb' 0 16).toNat + (value.extractLsb' 16 16).toNat + wordSum rest := by
  show (value.extractLsb' 0 8).toNat + 256 * (value.extractLsb' 8 8).toNat +
    ((value.extractLsb' 16 8).toNat + 256 * (value.extractLsb' 24 8).toNat + wordSum rest) = _
  have bound := value.isLt
  simp only [extractLsb'_toNat, Nat.shiftRight_eq_div_pow]
  omega

end InternetChecksum
