import PacketGraph.MacTable.Basic

namespace PacketGraph

open BitMap BitScan Function List

/-!
# The MAC table as a finite map

The contents of a table map a pair of parts to the entry stored for it.  Each
operation is related to the same operation on maps, for tables whose masks
only name memory that is allocated and written.
-/

/-- The number of values of each part of a MAC. -/
def partSize : Nat :=
  2 ^ 24

/-- A MAC as the two indices that select its entry. -/
abbrev MacKey := Nat × Nat

/-- The indices under which a table stores a MAC. -/
def macKey (mac : Mac) : MacKey :=
  (pgMacTablePart1 mac, pgMacTablePart2 mac)

/-- The 48-bit MAC with the given parts. -/
def macOfKey (key : MacKey) : Mac :=
  BitVec.ofNat 64 (key.1 + key.2 * 2 ^ 24)

variable (mac : Mac)

/-- The first part is the remainder of the MAC by `2 ^ 24`. -/
theorem pgMacTablePart1_eq : pgMacTablePart1 mac = mac.toNat % 2 ^ 24 := by
  unfold pgMacTablePart1
  rw [BitVec.toNat_and, BitVec.extractLsb'_toNat]
  have low : (0x00ffffff#32).toNat = 2 ^ 24 - 1 := by decide
  rw [low, Nat.and_two_pow_sub_one_eq_mod, Nat.shiftRight_zero]
  exact Nat.mod_mod_of_dvd _ (by decide)

/-- The second part is the next 24 bits of the MAC. -/
theorem pgMacTablePart2_eq : pgMacTablePart2 mac = mac.toNat / 2 ^ 24 % 2 ^ 24 := by
  unfold pgMacTablePart2
  rw [BitVec.toNat_and, BitVec.extractLsb'_toNat]
  have low : (0x00ffffff#32).toNat = 2 ^ 24 - 1 := by decide
  rw [low, Nat.and_two_pow_sub_one_eq_mod, Nat.shiftRight_eq_div_pow]
  exact Nat.mod_mod_of_dvd _ (by decide)

/-- A key whose two parts are in range. -/
def MacKey.Valid (key : MacKey) : Prop :=
  key.1 < partSize ∧ key.2 < partSize

theorem macKey_valid : MacKey.Valid (macKey mac) := by
  unfold MacKey.Valid macKey partSize
  simp only
  rw [pgMacTablePart1_eq, pgMacTablePart2_eq]
  omega

variable {key : MacKey}

/-- A key in range is the key of the MAC made from it. -/
theorem macKey_macOfKey (valid : MacKey.Valid key) : macKey (macOfKey key) = key := by
  rcases key with ⟨part1, part2⟩
  unfold MacKey.Valid partSize at valid
  simp only at valid
  unfold macKey macOfKey
  rw [pgMacTablePart1_eq, pgMacTablePart2_eq, BitVec.toNat_ofNat]
  simp only [Prod.mk.injEq]
  omega

theorem toNat_macOfKey_macKey : (macOfKey (macKey mac)).toNat = mac.toNat % 2 ^ 48 := by
  unfold macKey macOfKey
  rw [pgMacTablePart1_eq, pgMacTablePart2_eq, BitVec.toNat_ofNat]
  simp only
  omega

variable {V : Type}

/-- The entry stored under a key. -/
def MacTable.contents (table : MacTable V) (key : MacKey) : Option V :=
  if ¬ pgMacTableIsSet table.mask key.1 then
    none
  else if ¬ pgMacTableIsSet (table.sub key.1).mask key.2 then
    none
  else
    (table.sub key.1).entries.bind (fun entries => entries key.2)

theorem macTableGet_eq_contents (table : MacTable V) (mac : Mac) :
    macTableGet table mac = table.contents (macKey mac) :=
  rfl

/-- The mask of a sub-table names only written entries, at positions in range. -/
structure SubTable.WellFormed (inner : SubTable V) : Prop where
  inside : ∀ part2, testBit inner.mask part2 = true → part2 < partSize
  written : ∀ part2, testBit inner.mask part2 = true →
      ∃ entry, inner.entries.bind (fun entries => entries part2) = some entry

/-- The mask of a table names only allocated sub-tables. -/
structure MacTable.WellFormed (table : MacTable V) : Prop where
  inside : ∀ part1, testBit table.mask part1 = true → part1 < partSize
  allocated : ∀ part1, testBit table.mask part1 = true →
      ∃ inner, table.subs part1 = some inner ∧ inner.WellFormed

theorem SubTable.blank_wellFormed : (SubTable.blank V).WellFormed := by
  constructor
  · intro part2 isSet
    simp [SubTable.blank, testBit] at isSet
  · intro part2 isSet
    simp [SubTable.blank, testBit] at isSet

variable {table : MacTable V} {part1 : Nat}

section

variable (wellFormed : table.WellFormed)

include wellFormed

/-- The sub-table behind a set bit is well formed. -/
theorem MacTable.WellFormed.sub (isSet : testBit table.mask part1 = true)
    : (table.sub part1).WellFormed := by
  obtain ⟨inner, allocated, innerFormed⟩ := wellFormed.allocated part1 isSet
  unfold MacTable.sub
  rw [allocated]
  exact innerFormed

/-- A key is present exactly when both its bits are set. -/
theorem MacTable.WellFormed.contents_isSome (key : MacKey) :
    (table.contents key).isSome = true ↔ testBit table.mask key.1 = true ∧
        testBit (table.sub key.1).mask key.2 = true := by
  unfold MacTable.contents
  by_cases outer : testBit table.mask key.1 = true
  · by_cases inner : testBit (table.sub key.1).mask key.2 = true
    · obtain ⟨entry, written⟩ := (wellFormed.sub outer).written key.2 inner
      simp [outer, inner, written]
    · simp [outer, inner]
  · simp [outer]

/-- Only keys in range are present. -/
theorem MacTable.WellFormed.valid_of_contents (present : (table.contents key).isSome = true)
    : MacKey.Valid key := by
  obtain ⟨outer, inner⟩ := (wellFormed.contents_isSome key).mp present
  exact ⟨wellFormed.inside _ outer, (wellFormed.sub outer).inside _ inner⟩

end

/-- The entry stored in a sub-table. -/
def SubTable.contents (inner : SubTable V) (part2 : Nat) : Option V :=
  if ¬ pgMacTableIsSet inner.mask part2 then
    none
  else
    inner.entries.bind (fun entries => entries part2)

/-- The contents of a table through those of its sub-tables. -/
theorem MacTable.contents_eq (table : MacTable V) (key : MacKey) :
    table.contents key = if testBit table.mask key.1 = true then
        (table.sub key.1).contents key.2
      else
        none := by
  unfold MacTable.contents SubTable.contents
  by_cases outer : testBit table.mask key.1 = true
  · simp [outer]
  · simp [outer]

section Replace

variable {table : MacTable V} {mask : Nat → BitVec 64} {part1 : Nat}

/-- Replacing one sub-table leaves the others alone. -/
theorem sub_replaceSub (inner : SubTable V) (other : Nat) :
    MacTable.sub
        { mask := mask
          subs := update table.subs part1 (some inner) } other =
      if other = part1 then inner else table.sub other := by
  unfold MacTable.sub
  by_cases same : other = part1
  · subst same
    simp
  · simp [same]

/-- The contents after replacing one sub-table and marking it as used. -/
theorem contents_replaceSub
    (marks : ∀ other, testBit mask other = (testBit table.mask other || decide (other = part1)))
    (inner : SubTable V) (key : MacKey) :
    MacTable.contents
        { mask := mask
          subs := update table.subs part1 (some inner) } key =
      if key.1 = part1 then
        inner.contents key.2
      else
        table.contents key := by
  simp only [MacTable.contents_eq, sub_replaceSub, marks]
  by_cases same : key.1 = part1
  · simp [same]
  · simp [same]

/-- Replacing one sub-table by a well-formed one keeps the table so. -/
theorem MacTable.WellFormed.replaceSub (wellFormed : table.WellFormed)
    (marks : ∀ other, testBit mask other = (testBit table.mask other || decide (other = part1)))
    (inRange : part1 < partSize) {inner : SubTable V} (innerFormed : inner.WellFormed) :
    MacTable.WellFormed
      { mask := mask
        subs := update table.subs part1 (some inner) } := by
  constructor
  · intro other isSet
    by_cases same : other = part1
    · rw [same]
      exact inRange
    · apply wellFormed.inside
      simpa [marks, same] using isSet
  · intro other isSet
    by_cases same : other = part1
    · subst same
      exact ⟨inner, update_self _ _ _, innerFormed⟩
    · have before : testBit table.mask other = true := by simpa [marks, same] using isSet
      obtain ⟨found, allocated, foundFormed⟩ := wellFormed.allocated other before
      exact ⟨found, by simpa [update_of_ne same] using allocated, foundFormed⟩

end Replace

variable {mask : Nat → BitVec 64}

/-- A mask in which a set position is set once more. -/
theorem marks_of_isSet (isSet : testBit mask part1 = true) (other : Nat) :
    testBit mask other = (testBit mask other || decide (other = part1)) := by
  by_cases same : other = part1
  · simp [same, isSet]
  · simp [same]

/-- The contents of a sub-table after writing one entry. -/
theorem contents_storeEntry (mask : Nat → BitVec 64) (entries : Nat → Option V)
    (part2 : Nat) (entry : V) (other : Nat) :
    SubTable.contents
        { mask := pgMacTableMaskSet mask part2
          entries := some (update entries part2 (some entry)) }
        other =
      if other = part2 then
        some entry
      else
        SubTable.contents { mask := mask, entries := some entries } other := by
  unfold SubTable.contents pgMacTableMaskSet pgMacTableIsSet
  simp only [testBit_setBit (by decide : 0 < 64)]
  by_cases same : other = part2
  · subst same
    simp
  · simp [same]

/-- Writing an entry keeps a sub-table well formed. -/
theorem SubTable.WellFormed.storeEntry {entries : Nat → Option V}
    (wellFormed : SubTable.WellFormed { mask := mask, entries := some entries }) {part2 : Nat}
    (inRange : part2 < partSize) (entry : V) :
    SubTable.WellFormed
      { mask := pgMacTableMaskSet mask part2
        entries := some (update entries part2 (some entry)) } := by
  constructor
  · intro other isSet
    simp only [testBit_setBit (by decide : 0 < 64), Bool.or_eq_true, decide_eq_true_eq] at isSet
    rcases isSet with before | same
    · exact wellFormed.inside other before
    · rw [same]
      exact inRange
  · intro other isSet
    simp only [testBit_setBit (by decide : 0 < 64), Bool.or_eq_true, decide_eq_true_eq] at isSet
    by_cases same : other = part2
    · subst same
      exact ⟨entry, by simp⟩
    · obtain ⟨found, written⟩ := wellFormed.written other (by simpa [same] using isSet)
      exact ⟨found, by simpa [update_of_ne same] using written⟩

theorem emptyTable_wellFormed :
    MacTable.WellFormed ({ mask := fun _ => 0#64, subs := fun _ => none } : MacTable V) := by
  constructor
  · intro part1 isSet
    simp [testBit] at isSet
  · intro part1 isSet
    simp [testBit] at isSet

variable {malloc : Malloc}

/-- A fresh table is well formed and has no entry. -/
theorem pgMacTableInit_eq_some (started : (pgMacTableInit V malloc).1 = some table) :
    table.WellFormed ∧ ∀ key, table.contents key = none := by
  unfold pgMacTableInit at started
  split at started
  · simp only [Option.some.injEq] at started
    subst started
    exact ⟨emptyTable_wellFormed, fun key => by simp [MacTable.contents, testBit]⟩
  · simp at started

variable {mac : Mac} {entry : V} {after : MacTable V}

/-- What the last part of setting an entry does to the contents. -/
theorem storeEntry_eq_stored (wellFormed : table.WellFormed)
    (isSet : testBit table.mask (pgMacTablePart1 mac) = true)
    (stored : storeEntry table (pgMacTablePart1 mac) (pgMacTablePart2 mac) entry = .stored after) :
    after.WellFormed ∧ ∀ key, after.contents key =
          if key = macKey mac then some entry else table.contents key := by
  have innerFormed := wellFormed.sub isSet
  obtain ⟨inRange1, inRange2⟩ := macKey_valid mac
  unfold storeEntry at stored
  split at stored
  · exact absurd stored (by simp)
  · rename_i inner found
    split at stored
    · exact absurd stored (by simp)
    · rename_i entries allocated
      simp only [SetOutcome.stored.injEq] at stored
      subst stored
      have same : table.sub (pgMacTablePart1 mac) = inner := by simp [MacTable.sub, found]
      have shape : inner = { mask := inner.mask, entries := some entries } := by rw [← allocated]
      rw [same, shape] at innerFormed
      refine ⟨wellFormed.replaceSub (marks_of_isSet isSet) inRange1
        (innerFormed.storeEntry inRange2 entry), ?_⟩
      intro key
      rw [contents_replaceSub (marks_of_isSet isSet), contents_storeEntry, ← shape]
      rcases key with ⟨part1, part2⟩
      simp only [macKey, Prod.mk.injEq]
      by_cases first : part1 = pgMacTablePart1 mac
      · subst first
        by_cases second : part2 = pgMacTablePart2 mac
        · simp [second]
        · simp [second, MacTable.contents_eq, isSet, same]
      · simp [first]

theorem marks_maskSet (mask : Nat → BitVec 64) (part1 other : Nat) :
    testBit (pgMacTableMaskSet mask part1) other = (testBit mask other || decide (other = part1)) :=
  testBit_setBit (by decide) mask part1 other

/-- A new sub-table without entries does not change the contents. -/
theorem contents_blankSub (unset : ¬ testBit table.mask part1 = true)
    (entries : Option (Nat → Option V)) (key : MacKey) :
    MacTable.contents
        { mask := pgMacTableMaskSet table.mask part1
          subs :=
            update table.subs part1 (some { mask := fun _ => 0#64, entries := entries }) } key =
      table.contents key := by
  rw [contents_replaceSub (marks_maskSet table.mask part1)]
  by_cases same : key.1 = part1
  · subst same
    simp [SubTable.contents, testBit, MacTable.contents_eq] at unset ⊢
    simp [unset]
  · simp [same]

/-- An unused sub-table is well formed, whatever its entries are. -/
theorem unusedSub_wellFormed (entries : Option (Nat → Option V)) :
    SubTable.WellFormed { mask := fun _ => 0#64, entries := entries } := by
  constructor
  · intro part2 isSet
    simp [testBit] at isSet
  · intro part2 isSet
    simp [testBit] at isSet

/-- Setting an entry that returns updates the contents at its key. -/
theorem macTableSet_eq_stored (wellFormed : table.WellFormed)
    (stored : (macTableSet malloc table mac entry).1 = .stored after) :
    after.WellFormed ∧ ∀ key, after.contents key =
          if key = macKey mac then some entry else table.contents key := by
  unfold macTableSet at stored
  by_cases isSet : testBit table.mask (pgMacTablePart1 mac) = true
  · simp only [pgMacTableIsSet, isSet, ↓reduceIte] at stored
    exact storeEntry_eq_stored wellFormed isSet stored
  · simp only [pgMacTableIsSet, isSet, Bool.false_eq_true, ↓reduceIte] at stored
    split at stored
    · split at stored
      · have grown :=
          wellFormed.replaceSub (marks_maskSet table.mask (pgMacTablePart1 mac))
            (macKey_valid mac).1 (unusedSub_wellFormed (V := V) (some fun _ => none))
        simp only [update_idem] at stored
        have used : testBit (pgMacTableMaskSet table.mask (pgMacTablePart1 mac))
              (pgMacTablePart1 mac) = true := by
          simp [marks_maskSet]
        obtain ⟨afterFormed, changed⟩ := storeEntry_eq_stored grown used stored
        refine ⟨afterFormed, fun key => ?_⟩
        rw [changed, contents_blankSub isSet]
      · simp at stored
    · simp at stored

/-- Overwriting the pointer of an unused sub-table changes nothing. -/
theorem unusedSub_overwrite (wellFormed : table.WellFormed)
    (unset : ¬ testBit table.mask part1 = true) :
    MacTable.WellFormed { table with subs := update table.subs part1 none } ∧
      ∀ key, MacTable.contents { table with subs := update table.subs part1 none } key =
          table.contents key := by
  have elsewhere : ∀ other, testBit table.mask other = true → other ≠ part1 := by
    intro other isSet same
    exact unset (same ▸ isSet)
  refine ⟨⟨wellFormed.inside, ?_⟩, ?_⟩
  · intro other isSet
    obtain ⟨inner, allocated, innerFormed⟩ := wellFormed.allocated other isSet
    exact ⟨inner, by simpa [update_of_ne (elsewhere other isSet)] using allocated, innerFormed⟩
  · intro key
    rw [MacTable.contents_eq, MacTable.contents_eq]
    by_cases isSet : testBit table.mask key.1 = true
    · simp [isSet, MacTable.sub, update_of_ne (elsewhere key.1 isSet)]
    · simp [isSet]

theorem storeEntry_ne_raised (table after : MacTable V) (part1 part2 : Nat) (entry : V) :
    storeEntry table part1 part2 entry ≠ .raised after := by
  unfold storeEntry
  split
  · simp
  · split <;> simp

/-- A failed allocation leaves the contents alone. -/
theorem macTableSet_eq_raised (wellFormed : table.WellFormed)
    (raised : (macTableSet malloc table mac entry).1 = .raised after) :
    after.WellFormed ∧ ∀ key, after.contents key = table.contents key := by
  unfold macTableSet at raised
  by_cases isSet : testBit table.mask (pgMacTablePart1 mac) = true
  · simp only [pgMacTableIsSet, isSet, ↓reduceIte] at raised
    exact absurd raised (storeEntry_ne_raised _ _ _ _ _)
  · simp only [pgMacTableIsSet, isSet, Bool.false_eq_true, ↓reduceIte] at raised
    split at raised
    · split at raised
      · exact absurd raised (storeEntry_ne_raised _ _ _ _ _)
      · simp only [SetOutcome.raised.injEq] at raised
        subst raised
        exact ⟨wellFormed.replaceSub (marks_maskSet table.mask (pgMacTablePart1 mac))
            (macKey_valid mac).1 SubTable.blank_wellFormed, contents_blankSub isSet none⟩
    · simp only [SetOutcome.raised.injEq] at raised
      subst raised
      exact unusedSub_overwrite wellFormed isSet

/-- Unsetting a present entry toggles its bit. -/
theorem macTableUnset_of_present (outer : testBit table.mask (pgMacTablePart1 mac) = true)
    (inner : testBit (table.sub (pgMacTablePart1 mac)).mask (pgMacTablePart2 mac) = true) :
    macTableUnset table mac = (0, { table with
          subs :=
            update table.subs (pgMacTablePart1 mac) (some { table.sub (pgMacTablePart1 mac) with
                  mask :=
                    pgMacTableMaskUnset (table.sub (pgMacTablePart1 mac)).mask
                      (pgMacTablePart2 mac) }) }) := by
  simp [macTableUnset, outer, inner]

/-- Unsetting an absent entry changes nothing. -/
theorem macTableUnset_of_absent
    (absent : ¬ (testBit table.mask (pgMacTablePart1 mac) = true ∧ testBit (table.sub
        (pgMacTablePart1 mac)).mask (pgMacTablePart2 mac) = true)) :
    macTableUnset table mac = (-1, table) := by
  have missing : ¬ pgMacTableIsSet table.mask (pgMacTablePart1 mac) = true ∨
        ¬ pgMacTableIsSet (table.sub (pgMacTablePart1 mac)).mask (pgMacTablePart2 mac) = true := by
    rwa [← not_and_or]
  unfold macTableUnset
  simp only
  rw [if_pos missing]

/-- Unsetting an entry removes its key and reports whether it was there. -/
theorem macTableUnset_spec (wellFormed : table.WellFormed) (mac : Mac) :
    (macTableUnset table mac).2.WellFormed ∧ (∀ key, (macTableUnset table mac).2.contents key =
          if key = macKey mac then none else table.contents key) ∧
      (macTableUnset table mac).1 = if (table.contents (macKey mac)).isSome then 0 else -1 := by
  by_cases present : testBit table.mask (pgMacTablePart1 mac) = true ∧
        testBit (table.sub (pgMacTablePart1 mac)).mask (pgMacTablePart2 mac) = true
  · obtain ⟨outer, inner⟩ := present
    have found : (table.contents (macKey mac)).isSome = true :=
      (wellFormed.contents_isSome _).mpr ⟨outer, inner⟩
    have innerFormed := wellFormed.sub outer
    have cleared := testBit_flipBit (by decide : 0 < 64) inner
    rw [macTableUnset_of_present outer inner]
    refine ⟨wellFormed.replaceSub (marks_of_isSet outer)
      (macKey_valid mac).1 ⟨?_, ?_⟩, ?_, by simp [found]⟩
    · intro part2 isSet
      simp only [cleared, Bool.and_eq_true] at isSet
      exact innerFormed.inside part2 isSet.1
    · intro part2 isSet
      simp only [cleared, Bool.and_eq_true] at isSet
      exact innerFormed.written part2 isSet.1
    · rintro ⟨part1, part2⟩
      rw [contents_replaceSub (marks_of_isSet outer)]
      simp only [macKey, Prod.mk.injEq]
      by_cases first : part1 = pgMacTablePart1 mac
      · subst first
        by_cases second : part2 = pgMacTablePart2 mac
        · simp [second, SubTable.contents, cleared]
        · simp [second, SubTable.contents, cleared, MacTable.contents_eq, outer]
      · simp [first]
  · have missing : table.contents (macKey mac) = none := by
      rw [← Option.not_isSome_iff_eq_none, wellFormed.contents_isSome]
      exact present
    rw [macTableUnset_of_absent present]
    refine ⟨wellFormed, ?_, by simp [missing]⟩
    intro key
    by_cases same : key = macKey mac
    · simp [same, missing]
    · simp [same]

/-- Clearing one word of a well-formed table never meets a NULL sub-table. -/
theorem clearWord_spec (wellFormed : table.WellFormed) (index : Nat) :
    ∃ after, clearWord table index = .ok after ∧ after.WellFormed ∧
        after.mask = update table.mask index 0#64 := by
  unfold clearWord
  by_cases isZero : table.mask index = 0#64
  · refine ⟨table, by simp [isZero], wellFormed, ?_⟩
    rw [← isZero, update_eq_self]
  · have allocated : ∀ part1 ∈ wordPositions index (table.mask index),
          ∃ inner, table.subs part1 = some inner ∧ inner.WellFormed := by
      intro part1 member
      obtain ⟨rfl, isSet⟩ := mem_wordPositions.mp member
      exact wellFormed.allocated part1 isSet
    have noNull : (lowBits (table.mask index)).any
            (fun place => (table.subs (index * 64 + place)).isNone) =
          false := by
      rw [any_eq_false]
      intro place member
      obtain ⟨inner, found, _⟩ := allocated (index * 64 + place) (mem_map_of_mem member)
      simp [found]
    refine ⟨_, by simp only [isZero, noNull, ↓reduceIte]; rfl, ⟨?_, ?_⟩, rfl⟩
    · intro part1 isSet
      apply wellFormed.inside
      unfold testBit at isSet ⊢
      by_cases here : part1 / 64 = index
      · simp [here] at isSet
      · simpa [update_of_ne here] using isSet
    · intro part1 isSet
      unfold testBit at isSet
      by_cases here : part1 / 64 = index
      · simp [here] at isSet
      · have kept : testBit table.mask part1 = true := by
          simpa [testBit, update_of_ne here] using isSet
        obtain ⟨inner, found, innerFormed⟩ := wellFormed.allocated part1 kept
        refine ⟨inner, ?_, innerFormed⟩
        simp [mem_wordPositions, here, found]

/-- Clearing the words of a list zeroes exactly these words. -/
theorem clearWords_spec (indices : List Nat) (wellFormed : table.WellFormed) :
    ∃ after, indices.foldlM clearWord table = .ok after ∧ after.WellFormed ∧ ∀ index,
          after.mask index = if index ∈ indices then 0#64 else table.mask index := by
  induction indices generalizing table with
  | nil => exact ⟨table, rfl, wellFormed, by simp⟩
  | cons head rest ih =>
    obtain ⟨between, cleared, betweenFormed, betweenMask⟩ := clearWord_spec wellFormed head
    obtain ⟨after, finished, afterFormed, afterMask⟩ := ih betweenFormed
    refine ⟨after, ?_, afterFormed, ?_⟩
    · rw [foldlM_cons, cleared]
      exact finished
    · intro index
      rw [afterMask, betweenMask]
      by_cases isHead : index = head
      · simp [isHead]
      · simp [isHead]

/-- Clearing a well-formed table returns and leaves no sub-table in use. -/
theorem pgMacTableClear_unused (wellFormed : table.WellFormed) :
    ∃ after, pgMacTableClear table = .ok after ∧ after.WellFormed ∧
        ∀ part1, ¬ testBit after.mask part1 = true := by
  obtain ⟨after, cleared, afterFormed, afterMask⟩ :=
    clearWords_spec (List.range' 0 maskSize) wellFormed
  refine ⟨after, cleared, afterFormed, fun part1 isSet => ?_⟩
  have small := afterFormed.inside part1 isSet
  unfold partSize at small
  have member : part1 / 64 ∈ List.range' 0 maskSize := by
    rw [mem_range'_1]
    unfold maskSize
    omega
  unfold testBit at isSet
  rw [afterMask, if_pos member] at isSet
  simp at isSet

/-- Clearing a well-formed table returns and leaves no entry. -/
theorem pgMacTableClear_spec (wellFormed : table.WellFormed) :
    ∃ after, pgMacTableClear table = .ok after ∧ after.WellFormed ∧
        ∀ key, after.contents key = none := by
  obtain ⟨after, cleared, afterFormed, unused⟩ := pgMacTableClear_unused wellFormed
  refine ⟨after, cleared, afterFormed, fun key => ?_⟩
  rw [MacTable.contents_eq, if_neg (unused key.1)]

/-- Setting an entry consumes some answers of `pg_malloc`. -/
theorem macTableSet_malloc (malloc : Malloc) (table : MacTable V) (mac : Mac) (entry : V) :
    ∃ calls, (macTableSet malloc table mac entry).2 = malloc.after calls := by
  unfold macTableSet
  simp only
  split
  · exact ⟨0, by funext call; simp [Malloc.after]⟩
  · split
    · split
      · exact ⟨2, rfl⟩
      · exact ⟨2, rfl⟩
    · exact ⟨1, rfl⟩

/-- Every sub-table in use has its entries, as long as no allocation failed. -/
def MacTable.Complete (table : MacTable V) : Prop :=
  ∀ part1, testBit table.mask part1 = true → (table.sub part1).entries.isSome = true

/-- A fresh table is complete. -/
theorem pgMacTableInit_complete (started : (pgMacTableInit V malloc).1 = some table) :
    table.Complete := by
  unfold pgMacTableInit at started
  split at started
  · simp only [Option.some.injEq] at started
    subst started
    intro part1 isSet
    simp [testBit] at isSet
  · simp at started

/-- Writing an entry into a sub-table in use succeeds. -/
theorem storeEntry_succeeds
    (allocated : ∃ inner, table.subs part1 = some inner ∧ inner.entries.isSome = true)
    (complete : ∀ other, other ≠ part1 → testBit table.mask other = true → (table.sub
        other).entries.isSome = true) (part2 : Nat) (entry : V) :
    ∃ after, storeEntry table part1 part2 entry = .stored after ∧ after.Complete := by
  obtain ⟨inner, found, hasEntries⟩ := allocated
  obtain ⟨entries, isEntries⟩ := Option.isSome_iff_exists.mp hasEntries
  refine ⟨_, by simp only [storeEntry, found, isEntries]; rfl, ?_⟩
  intro other isSet
  rw [sub_replaceSub]
  by_cases same : other = part1
  · simp [same]
  · simpa [same] using complete other same isSet

/-- Setting an entry of a complete table stores it or fails to allocate. -/
theorem macTableSet_complete (wellFormed : table.WellFormed) (complete : table.Complete)
    (malloc : Malloc) (mac : Mac) (entry : V) :
    (∃ after, (macTableSet malloc table mac entry).1 = .stored after ∧ after.Complete) ∨
      ((∃ call, malloc call = false) ∧
        ∃ after, (macTableSet malloc table mac entry).1 = .raised after) := by
  unfold macTableSet
  by_cases isSet : testBit table.mask (pgMacTablePart1 mac) = true
  · obtain ⟨inner, found, _⟩ := wellFormed.allocated (pgMacTablePart1 mac) isSet
    have hasEntries : inner.entries.isSome = true := by
      have filled := complete _ isSet
      simpa [MacTable.sub, found] using filled
    left
    simp only [pgMacTableIsSet, isSet, ↓reduceIte]
    exact storeEntry_succeeds ⟨inner, found, hasEntries⟩
      (fun other _ inUse => complete other inUse) _ entry
  · simp only [pgMacTableIsSet, isSet, Bool.false_eq_true, ↓reduceIte]
    by_cases first : malloc 0 = true
    · by_cases second : malloc 1 = true
      · left
        simp only [first, second, ↓reduceIte]
        refine storeEntry_succeeds ⟨_, update_self _ _ _, rfl⟩ ?_ _ _
        intro other different inUse
        have before : testBit table.mask other = true := by
          simpa [marks_maskSet, different] using inUse
        simpa [MacTable.sub, update_of_ne different] using complete other before
      · right
        simp only [first, second, ↓reduceIte, Bool.false_eq_true]
        exact ⟨⟨1, by simpa using second⟩, _, rfl⟩
    · right
      simp only [first, ↓reduceIte, Bool.false_eq_true]
      exact ⟨⟨0, by simpa using first⟩, _, rfl⟩

end PacketGraph
