import Mathlib

namespace Bytes

open BitVec List

/-!
# Memory addressed by byte

Numbers lie in memory by their little-endian bytes.  A store overwrites a run
of bytes, and a load gives back what was stored at its address.
-/

/-- The bytes of a memory, by address. -/
abbrev Memory := Nat → BitVec 8

/-- The number whose bytes start at an address. -/
def load : (n : Nat) → Memory → Nat → BitVec (8 * n)
  | 0, _, _ => 0#0
  | n + 1, memory, address => load n memory (address + 1) ++ memory address

/-- The bytes of a number. -/
def bytesOf (n : Nat) (value : BitVec (8 * n)) : List (BitVec 8) :=
  (List.range n).map (fun place => value.extractLsb' (8 * place) 8)

/-- Overwrite the bytes from an address on. -/
def store (memory : Memory) (address : Nat) (bytes : List (BitVec 8)) : Memory :=
  fun place => if address ≤ place then
      (bytes[place - address]?).getD (memory place)
    else
      memory place

/-- The bytes of a stretch of memory. -/
def slice (memory : Memory) (address length : Nat) : List (BitVec 8) :=
  (List.range length).map (fun place => memory (address + place))

@[simp] theorem length_bytesOf (n : Nat) (value : BitVec (8 * n)) :
    (bytesOf n value).length = n := by
  simp [bytesOf]

variable (memory : Memory)

@[simp] theorem length_slice (address length : Nat) :
    (slice memory address length).length = length := by
  simp [slice]

/-- The bits of a load are those of the bytes at its address. -/
theorem getLsbD_load (n : Nat) (memory : Memory) (address : Nat) {bit : Nat} (inside : bit < 8 * n)
    : (load n memory address).getLsbD bit = (memory (address + bit / 8)).getLsbD (bit % 8) := by
  induction n generalizing address bit with
  | zero => omega
  | succ n ih =>
    simp only [load]
    rw [getLsbD_append]
    by_cases low : bit < 8
    · simp [low, Nat.div_eq_of_lt low, Nat.mod_eq_of_lt low]
    · have place : address + 1 + (bit - 8) / 8 = address + bit / 8 := by omega
      have remainder : (bit - 8) % 8 = bit % 8 := by omega
      rw [if_neg low, ih (address + 1) (by omega), place, remainder]

variable {n : Nat} {memory : Memory} {address : Nat} {value : BitVec (8 * n)}

/-- A load reads the bytes at its address only. -/
theorem load_eq_iff :
    load n memory address = value ↔ ∀ place < n,
        memory (address + place) = value.extractLsb' (8 * place) 8 := by
  constructor
  · rintro rfl place inside
    apply eq_of_getLsbD_eq
    intro bit small
    have position : (8 * place + bit) / 8 = place := by omega
    have remainder : (8 * place + bit) % 8 = bit := by omega
    rw [getLsbD_extractLsb', decide_eq_true small, Bool.true_and,
      getLsbD_load n memory address (by omega), position, remainder]
  · intro sameBytes
    apply eq_of_getLsbD_eq
    intro bit small
    have inside : bit / 8 < n := by omega
    have position : 8 * (bit / 8) + bit % 8 = bit := by omega
    have low : bit % 8 < 8 := Nat.mod_lt _ (by omega)
    rw [getLsbD_load n memory address small, sameBytes _ inside,
      getLsbD_extractLsb', decide_eq_true low, Bool.true_and, position]

/-- Loads of equal bytes are equal. -/
theorem load_congr {other : Memory} {otherAddress : Nat}
    (same : ∀ place < n, memory (address + place) = other (otherAddress + place)) :
    load n memory address = load n other otherAddress := by
  rw [load_eq_iff]
  intro place inside
  rw [same place inside]
  exact load_eq_iff.mp rfl place inside

variable {place : Nat} {bytes : List (BitVec 8)}

/-- A store changes nothing before its address. -/
theorem store_of_lt (before : place < address) :
    store memory address bytes place = memory place := by
  simp [store, Nat.not_le.mpr before]

/-- A store changes nothing past its bytes. -/
theorem store_of_le (after : address + bytes.length ≤ place) :
    store memory address bytes place = memory place := by
  have outside : bytes.length ≤ place - address := by omega
  simp [store, List.getElem?_eq_none outside]

theorem store_of_apart (apart : place < address ∨ address + bytes.length ≤ place) :
    store memory address bytes place = memory place :=
  apart.elim store_of_lt store_of_le

/-- A store leaves its bytes at its address. -/
theorem store_add {byte : BitVec 8} (isByte : bytes[place]? = some byte) :
    store memory address bytes (address + place) = byte := by
  simp [store, isByte]

/-- The bytes of a number, one by one. -/
theorem getElem?_bytesOf (value : BitVec (8 * n)) (inside : place < n) :
    (bytesOf n value)[place]? = some (value.extractLsb' (8 * place) 8) := by
  simp [bytesOf, inside]

/-- Storing what is there changes nothing. -/
theorem store_load (n : Nat) (memory : Memory) (address : Nat) :
    store memory address (bytesOf n (load n memory address)) = memory := by
  funext place
  by_cases inside : address ≤ place ∧ place < address + n
  · obtain ⟨distance, rfl⟩ := Nat.exists_eq_add_of_le inside.1
    rw [store_add (getElem?_bytesOf _ (by omega))]
    exact (load_eq_iff.mp rfl distance (by omega)).symm
  · exact store_of_apart (by rw [length_bytesOf]; omega)

/-- A load does not see a store behind it. -/
theorem load_store_of_le {start : Nat} (behind : address + n ≤ start) :
    load n (store memory start bytes) address = load n memory address :=
  load_congr (fun _ inside => store_of_lt (by omega))

variable {offset : Nat} {leading trailing : List (BitVec 8)}

/-- A load gives back a number that was stored among other bytes. -/
theorem load_store_field {start : Nat} (isBytes : bytes = leading ++ (bytesOf n value ++ trailing))
    (isOffset : leading.length = offset) :
    load n (store memory start bytes) (start + offset) = value := by
  subst isBytes isOffset
  rw [load_eq_iff]
  intro place inside
  rw [Nat.add_assoc]
  apply store_add
  rw [getElem?_append_right (by omega), Nat.add_sub_cancel_left,
    getElem?_append_left (by rw [length_bytesOf]; exact inside)]
  exact getElem?_bytesOf value inside

/-- The bytes of a slice. -/
theorem getElem?_slice (address length place : Nat) :
    (slice memory address length)[place]? =
      if place < length then some (memory (address + place)) else none := by
  by_cases inside : place < length
  · simp [slice, inside]
  · simp [slice, inside]

theorem slice_add (address length other : Nat) :
    slice memory address (length + other) =
      slice memory address length ++ slice memory (address + length) other := by
  simp [slice, range_add, Nat.add_assoc]

/-- A number lies where its bytes do. -/
theorem slice_eq_bytesOf_iff :
    slice memory address n = bytesOf n value ↔ load n memory address = value := by
  simp [load_eq_iff, slice, bytesOf, map_inj_left]

variable {length : Nat}

/-- Some of the bytes that were stored are read back. -/
theorem slice_store_within (inside : offset + length ≤ bytes.length) :
    slice (store memory address bytes) (address + offset) length =
      (bytes.drop offset).take length := by
  apply ext_getElem?
  intro place
  rw [getElem?_slice, getElem?_take, getElem?_drop, Nat.add_assoc]
  by_cases within : place < length
  · have isByte := List.getElem?_eq_getElem (show offset + place < bytes.length by omega)
    rw [if_pos within, if_pos within, store_add isByte, isByte]
  · rw [if_neg within, if_neg within]

/-- Bytes apart from a store are not changed by it. -/
theorem slice_store_of_apart {other : Nat}
    (apart : other + length ≤ address ∨ address + bytes.length ≤ other) :
    slice (store memory address bytes) other length = slice memory other length := by
  refine map_congr_left (fun place isPlace => ?_)
  have inside := mem_range.mp isPlace
  exact store_of_apart (by omega)

/-- What was stored is read back. -/
theorem slice_store (isLength : bytes.length = length) :
    slice (store memory address bytes) address length = bytes := by
  show slice (store memory address bytes) (address + 0) length = bytes
  rw [slice_store_within (by omega), drop_zero, take_of_length_le (by omega)]

/-- Overwriting some of the bytes that were just stored. -/
theorem store_store_within {other : List (BitVec 8)} (isOffset : leading.length = offset)
    (sameLength : other.length = bytes.length) :
    store (store memory address (leading ++ (bytes ++ trailing))) (address + offset) other =
      store memory address (leading ++ (other ++ trailing)) := by
  subst isOffset
  funext place
  by_cases before : place < address + leading.length
  · rw [store_of_lt before]
    unfold store
    split
    · rw [getElem?_append_left (by omega), getElem?_append_left (by omega)]
    · rfl
  obtain ⟨distance, rfl⟩ := Nat.exists_eq_add_of_le (Nat.not_lt.mp before)
  by_cases inside : distance < other.length
  · rw [store_add (List.getElem?_eq_getElem inside), Nat.add_assoc]
    refine (store_add ?_).symm
    rw [getElem?_append_right (by omega), Nat.add_sub_cancel_left,
      getElem?_append_left inside, List.getElem?_eq_getElem inside]
  · rw [store_of_le (by omega)]
    unfold store
    split
    · rw [getElem?_append_right (by omega), getElem?_append_right (by omega),
        getElem?_append_right (by omega), getElem?_append_right (by omega), sameLength]
    · rfl

end Bytes
