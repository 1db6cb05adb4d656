import PacketGraph.MacTable.IteratorSpec

namespace PacketGraph

open BitMap BitScan Function List

/-!
# What the foreach loops visit

The loops visit the keys that remain from the first position of the iterator,
each once and with its entry, whatever keys their body unsets on the way.
-/

variable {V C : Type}

/-- The value of two words put one after the other. -/
private theorem toNat_append_eq {upper lower : Nat} (high : BitVec upper) (low : BitVec lower) :
    (high ++ low).toNat = high.toNat * 2 ^ lower + low.toNat := by
  rw [BitVec.toNat_append, ← Nat.shiftLeft_add_eq_or_of_lt low.isLt, Nat.shiftLeft_eq]

variable {it : MacTableIterator C} {key : MacKey}

/-- The rebuilt key of an iterator is the MAC of the key it stands on. -/
theorem pgMacTableIteratorMkKey_eq {old : Mac} (valid : MacKey.Valid key)
    (first : it.i * 64 + it.mi = key.1) (second : it.j * 64 + it.mj = key.2)
    (small : old.toNat < 2 ^ 56) : pgMacTableIteratorMkKey it old = macOfKey key := by
  obtain ⟨inRange1, inRange2⟩ := valid
  unfold partSize at inRange1 inRange2
  apply BitVec.eq_of_toNat_eq
  unfold pgMacTableIteratorMkKey macOfKey
  simp only [first, second, toNat_append_eq, BitVec.extractLsb'_toNat,
    BitVec.toNat_ofNat, Nat.shiftRight_eq_div_pow]
  omega

theorem macOfKey_lt (valid : MacKey.Valid key) : (macOfKey key).toNat < 2 ^ 56 := by
  obtain ⟨inRange1, inRange2⟩ := valid
  unfold partSize at inRange1 inRange2
  unfold macOfKey
  rw [BitVec.toNat_ofNat]
  omega

section

variable (table : MacTable V) (mac : Mac)

/-- Unsetting a key touches the mask of its own sub-table only. -/
theorem sub_macTableUnset_of_ne {part1 : Nat} (other : part1 ≠ pgMacTablePart1 mac) :
    (macTableUnset table mac).2.sub part1 = table.sub part1 := by
  unfold macTableUnset
  simp only
  split
  · rfl
  · simp [MacTable.sub, update_of_ne other]

/-- Unsetting a key keeps the entries of its sub-table. -/
theorem entries_macTableUnset (part1 : Nat) :
    ((macTableUnset table mac).2.sub part1).entries = (table.sub part1).entries := by
  by_cases same : part1 = pgMacTablePart1 mac
  · subst same
    unfold macTableUnset
    simp only
    split
    · rfl
    · simp [MacTable.sub]
  · rw [sub_macTableUnset_of_ne table mac same]

/-- Unsetting a key keeps every other word of its sub-table's mask. -/
theorem mask_macTableUnset_of_ne (part1 : Nat) {index : Nat}
    (other : index ≠ pgMacTablePart2 mac / 64) :
    ((macTableUnset table mac).2.sub part1).mask index = (table.sub part1).mask index := by
  by_cases same : part1 = pgMacTablePart1 mac
  · subst same
    unfold macTableUnset
    simp only
    split
    · rfl
    · simp [MacTable.sub, flipBit_of_ne _ other]
  · rw [sub_macTableUnset_of_ne table mac same]

@[simp] theorem mask_macTableUnset : (macTableUnset table mac).2.mask = table.mask := by
  unfold macTableUnset
  simp only
  split <;> rfl

/-- Unsetting a key keeps the sub-tables ahead of an iterator. -/
theorem partsAhead_macTableUnset (rounds i : Nat) (m0 : BitVec 64)
    : partsAhead (macTableUnset table mac).2 rounds i m0 = partsAhead table rounds i m0 := by
  cases rounds with
  | zero => rfl
  | succ rounds => simp only [partsAhead, mask_macTableUnset]

/-- Unsetting an entry of word `j` keeps what is cached of that word. -/
theorem subAhead_macTableUnset (part1 : Nat) (rounds j : Nat) (m1 : BitVec 64)
    (inWord : pgMacTablePart2 mac / 64 = j) :
    subAhead ((macTableUnset table mac).2.sub part1) rounds j m1 false =
      subAhead (table.sub part1) rounds j m1 false := by
  cases rounds with
  | zero => rfl
  | succ rounds =>
    simp only [subAhead, Bool.false_eq_true, ↓reduceIte]
    congr 1
    apply positionsFrom_congr
    intro index lower _
    apply mask_macTableUnset_of_ne
    omega

end

variable {setter : SubTable V → Nat → C} {table : MacTable V} {rest : List MacKey}

/-- The sub-tables ahead of an iterator are the current one and later ones. -/
theorem Stands.partsAhead_eq (stands : Stands setter table key rest it) :
    ∃ later, partsAhead table (maskSize - it.i) it.i it.m0 = key.1 :: later ∧
        ∀ part1 ∈ later, key.1 < part1 := by
  obtain ⟨nonzero, isLowest⟩ := stands.current
  have roundsLeft : maskSize - it.i = (maskSize - (it.i + 1)) + 1 := by
    have inside := stands.inside.1
    omega
  have sorted : (wordPositions it.i it.m0 ++ positionsFrom table.mask (it.i + 1)
          (maskSize - (it.i + 1))).Pairwise (· < ·) := by
    refine pairwise_append.mpr ⟨wordPositions_sorted _ _, positionsFrom_sorted _ _ _, ?_⟩
    intro lower lowerMember upper upperMember
    have below := (mem_wordPositions.mp lowerMember).1
    have above := (mem_positionsFrom.mp upperMember).1.1
    omega
  rw [roundsLeft]
  simp only [partsAhead]
  rw [wordPositions_eq_cons it.i nonzero, isLowest, stands.first, cons_append] at sorted ⊢
  exact ⟨_, rfl, (pairwise_cons.mp sorted).1⟩

/-- Unsetting the current key does not change what remains. -/
theorem Stands.unset (stands : Stands setter table key rest it)
    (valid : MacKey.Valid key) : remaining (macTableUnset table (macOfKey key)).2 it = rest := by
  obtain ⟨later, shape, above⟩ := stands.partsAhead_eq
  have isKey := macKey_macOfKey valid
  have isFirst : pgMacTablePart1 (macOfKey key) = key.1 := congrArg Prod.fst isKey
  have isSecond : pgMacTablePart2 (macOfKey key) = key.2 := congrArg Prod.snd isKey
  have sameLater : later.flatMap (subKeys (macTableUnset table (macOfKey key)).2) =
        later.flatMap (subKeys table) := by
    apply flatMap_congr
    intro part1 member
    have other : part1 ≠ pgMacTablePart1 (macOfKey key) := by
      rw [isFirst]
      exact Nat.ne_of_gt (above part1 member)
    simp only [subKeys, sub_macTableUnset_of_ne table _ other]
  have sameWord : pgMacTablePart2 (macOfKey key) / 64 = it.j := by
    have entry := stands.second
    have inside := stands.inside.2.2
    rw [isSecond]
    omega
  have ahead := stands.ahead
  unfold remaining at ahead ⊢
  rw [shape] at ahead
  rw [partsAhead_macTableUnset, shape]
  simp only [keysAhead] at ahead ⊢
  rw [subAhead_macTableUnset table _ _ _ _ _ sameWord, sameLater]
  exact ahead

/-- The table after the body of a foreach loop ran at one key. -/
def afterBody (drop : Mac → Option V → Bool) (table : MacTable V) (key : MacKey) : MacTable V :=
  if drop (macOfKey key) (table.contents key) then (macTableUnset table (macOfKey key)).2 else table

/-- The body at one key removes that key or changes nothing. -/
theorem afterBody_spec (wellFormed : table.WellFormed) (drop : Mac → Option V → Bool)
    (valid : MacKey.Valid key) :
    (afterBody drop table key).WellFormed ∧ ∀ other,
        (afterBody drop table key).contents other = if other = key ∧
              drop (macOfKey key) (table.contents key) = true then
            none
          else
            table.contents other := by
  obtain ⟨unsetFormed, unsetContents, _⟩ := macTableUnset_spec wellFormed (macOfKey key)
  rw [macKey_macOfKey valid] at unsetContents
  unfold afterBody
  by_cases dropped : drop (macOfKey key) (table.contents key) = true
  · simp only [dropped, ↓reduceIte, and_true]
    exact ⟨unsetFormed, unsetContents⟩
  · simp only [dropped, Bool.false_eq_true, ↓reduceIte, and_false, implies_true, and_true]
    exact wellFormed

variable (drop : Mac → Option V → Bool)

@[simp] theorem mask_afterBody (table : MacTable V) (key : MacKey) :
    (afterBody drop table key).mask = table.mask := by
  unfold afterBody
  split
  · exact mask_macTableUnset table _
  · rfl

/-- The body at one key keeps all entries where they are. -/
@[simp] theorem entries_afterBody (table : MacTable V) (key : MacKey) (part1 : Nat) :
    ((afterBody drop table key).sub part1).entries = (table.sub part1).entries := by
  unfold afterBody
  split
  · exact entries_macTableUnset table _ part1
  · rfl

/-- The body at the current key does not change what remains. -/
theorem Stands.afterBody (stands : Stands setter table key rest it) (valid : MacKey.Valid key)
    (drop : Mac → Option V → Bool) : remaining (afterBody drop table key) it = rest := by
  unfold PacketGraph.afterBody
  split
  · exact stands.unset valid
  · exact stands.ahead

/-- What a foreach loop visits, and the table it leaves. -/
structure ForeachResult (drop : Mac → Option V → Bool) (table : MacTable V) (keys : List MacKey)
    (result : List (Mac × Option V) × MacTable V) : Prop where
  visited : result.1 = keys.map (fun key => (macOfKey key, table.contents key))
  wellFormed : result.2.WellFormed
  contents : ∀ key, result.2.contents key = if key ∈ keys ∧
            drop (macOfKey key) (table.contents key) = true then none else table.contents key
  mask : result.2.mask = table.mask
  entries : ∀ part1, (result.2.sub part1).entries = (table.sub part1).entries

section Loop

variable {setter : SubTable V → Nat → C} {getter : C → Nat → Option V}

variable {it : MacTableIterator C}

/-- A foreach loop at the end of the table visits nothing. -/
theorem foreachFrom_end (drop : Mac → Option V → Bool) (rounds : Nat) (table : MacTable V)
    (old : Mac) (atEnd : pgMacTableIteratorIsEnd it = true) :
    foreachFrom setter getter drop rounds table old it = ([], table) := by
  cases rounds with
  | zero => rfl
  | succ rounds => simp [foreachFrom, atEnd]

/-- One round of a foreach loop on the key the iterator stands on. -/
theorem foreachFrom_stands
    (reads : ∀ (inner : SubTable V) index, getter (setter inner index) index = inner.entries.bind
        (fun entries => entries index)) (drop : Mac → Option V → Bool) (rounds : Nat)
    {table : MacTable V} (wellFormed : table.WellFormed) {key : MacKey} {rest : List MacKey}
    (stands : Stands setter table key rest it) (present : (table.contents key).isSome = true)
    {old : Mac} (small : old.toNat < 2 ^ 56) :
    foreachFrom setter getter drop (rounds + 1) table old it =
      ((macOfKey key, table.contents key) ::
          (foreachFrom setter getter drop rounds (afterBody drop table key) (macOfKey key)
            (macTableIteratorNext setter (afterBody drop table key) it)).1,
        (foreachFrom setter getter drop rounds (afterBody drop table key) (macOfKey key)
          (macTableIteratorNext setter (afterBody drop table key) it)).2) := by
  have valid := wellFormed.valid_of_contents present
  have notEnd : pgMacTableIteratorIsEnd it = false := by
    have inside := stands.inside.1
    unfold maskSize at inside
    unfold pgMacTableIteratorIsEnd uint32Max
    rw [decide_eq_false_iff_not]
    omega
  have rebuilt : pgMacTableIteratorMkKey it old = macOfKey key :=
    pgMacTableIteratorMkKey_eq valid stands.first stands.second small
  have value : it.value.bind (fun kept => getter kept (it.j * 64 + it.mj)) =
        table.contents key := by
    obtain ⟨outer, inner⟩ := (wellFormed.contents_isSome key).mp present
    rw [stands.value, stands.second]
    simp [reads, MacTable.contents, outer, inner]
  simp only [foreachFrom, notEnd, rebuilt, value, Bool.false_eq_true, ↓reduceIte]
  rfl

/-- The foreach loop visits the current key and all that remain. -/
theorem foreachFrom_spec
    (reads : ∀ (inner : SubTable V) index, getter (setter inner index) index = inner.entries.bind
        (fun entries => entries index)) (drop : Mac → Option V → Bool) (rest : List MacKey)
    {rounds : Nat} {table : MacTable V} {key : MacKey} {old : Mac} (wellFormed : table.WellFormed)
    (stands : Stands setter table key rest it)
    (present : ∀ other ∈ key :: rest, (table.contents other).isSome = true)
    (distinct : (key :: rest).Nodup) (small : old.toNat < 2 ^ 56) (enough : rest.length < rounds) :
    ForeachResult drop table (key :: rest)
      (foreachFrom setter getter drop rounds table old it) := by
  induction rest generalizing rounds table key it old with
  | nil =>
    obtain ⟨left, rfl⟩ : ∃ left, rounds = left + 1 := ⟨rounds - 1, by simp at enough; omega⟩
    have here := present key (by simp)
    have valid := wellFormed.valid_of_contents here
    obtain ⟨afterFormed, afterContents⟩ := afterBody_spec wellFormed drop valid
    have atEnd :=
      (macTableIteratorNext_spec setter (afterBody drop table key) it
        ⟨Nat.le_of_lt stands.inside.1, stands.inside.2.1⟩).1 (stands.afterBody valid drop)
    rw [foreachFrom_stands reads drop left wellFormed stands here small,
      foreachFrom_end drop left _ _ atEnd]
    refine ⟨by simp, afterFormed, fun other => ?_, by simp, by simp⟩
    rw [afterContents]
    by_cases same : other = key
    · simp [same]
    · simp [same]
  | cons next more ih =>
    obtain ⟨left, rfl⟩ : ∃ left, rounds = left + 1 := ⟨rounds - 1, by simp at enough; omega⟩
    have here := present key (by simp)
    have valid := wellFormed.valid_of_contents here
    obtain ⟨afterFormed, afterContents⟩ := afterBody_spec wellFormed drop valid
    obtain ⟨notAhead, laterDistinct⟩ := nodup_cons.mp distinct
    have keptContents : ∀ other ∈ next :: more, (afterBody drop table key).contents other =
            table.contents other := by
      intro other member
      have different : other ≠ key := fun same => notAhead (same ▸ member)
      rw [afterContents]
      simp [different]
    have stepped :=
      (macTableIteratorNext_spec setter (afterBody drop table key) it
        ⟨Nat.le_of_lt stands.inside.1, stands.inside.2.1⟩).2 next more (stands.afterBody valid drop)
    have later :=
      ih afterFormed stepped (by
          intro other member
          rw [keptContents other member]
          exact present other (mem_cons_of_mem key member))
        laterDistinct (macOfKey_lt valid)
        (by simp at enough; omega : more.length < left)
    rw [foreachFrom_stands reads drop left wellFormed stands here small]
    refine ⟨?_, later.wellFormed, fun other => ?_, later.mask.trans (mask_afterBody drop table key),
      fun part1 => (later.entries part1).trans (entries_afterBody drop table key part1)⟩
    · have sameValues : (next :: more).map (fun other =>
                (macOfKey other, (afterBody drop table key).contents other)) =
            (next :: more).map (fun other => (macOfKey other, table.contents other)) := by
        apply map_congr_left
        intro other member
        rw [keptContents other member]
      simp only
      rw [later.visited, sameValues, map_cons (l := next :: more)]
    · rw [later.contents]
      by_cases member : other ∈ next :: more
      · have different : other ≠ key := fun same => notAhead (same ▸ member)
        rw [keptContents other member]
        simp [member]
      · rw [afterContents]
        by_cases same : other = key
        · subst same
          simp [member]
        · simp [member, same]

end Loop

/-- All keys of a table, in the order of their two parts. -/
def tableKeys (table : MacTable V) : List MacKey :=
  (positionsFrom table.mask 0 maskSize).flatMap (subKeys table)

/-- The keys that the first step of the iterator can reach. -/
def visibleKeys (table : MacTable V) : List MacKey :=
  if (table.mask 0).getLsbD 0 then
    tableKeys table
  else
    keysAhead table (positionsFrom table.mask 0 maskSize) 0 0#64 false

/-- The order in which keys are visited. -/
def MacKey.Before (key other : MacKey) : Prop :=
  key.1 < other.1 ∨ key.1 = other.1 ∧ key.2 < other.2

theorem MacKey.Before.ne {other : MacKey} (before : key.Before other) : key ≠ other := by
  rintro rfl
  unfold MacKey.Before at before
  omega

theorem nodup_of_before {keys : List MacKey} (sorted : keys.Pairwise MacKey.Before) : keys.Nodup :=
  sorted.imp (fun before => before.ne)

/-- The keys of a sub-table have its index as their first part. -/
theorem mem_subKeys {part1 : Nat} :
    key ∈ subKeys table part1 ↔ key.1 = part1 ∧ key.2 / 64 < maskSize ∧
        testBit (table.sub part1).mask key.2 = true := by
  rcases key with ⟨first, second⟩
  unfold subKeys
  simp only [mem_map, mem_positionsFrom, Prod.mk.injEq]
  constructor
  · rintro ⟨part2, ⟨range, isSet⟩, rfl, rfl⟩
    exact ⟨rfl, by omega, isSet⟩
  · rintro ⟨rfl, range, isSet⟩
    exact ⟨second, ⟨by omega, isSet⟩, rfl, rfl⟩

theorem div_lt_maskSize {part : Nat} (inRange : part < partSize) : part / 64 < maskSize := by
  unfold partSize at inRange
  unfold maskSize
  omega

/-- The keys of a table are those that have an entry. -/
theorem mem_tableKeys (wellFormed : table.WellFormed) :
    key ∈ tableKeys table ↔ (table.contents key).isSome = true := by
  rw [wellFormed.contents_isSome]
  unfold tableKeys
  simp only [mem_flatMap, mem_positionsFrom, mem_subKeys]
  constructor
  · rintro ⟨part1, ⟨_, outer⟩, rfl, _, inner⟩
    exact ⟨outer, inner⟩
  · rintro ⟨outer, inner⟩
    have outerRange := div_lt_maskSize (wellFormed.inside _ outer)
    have innerRange := div_lt_maskSize ((wellFormed.sub outer).inside _ inner)
    exact ⟨key.1, ⟨⟨Nat.zero_le _, by omega⟩, outer⟩, rfl, innerRange, inner⟩

/-- The keys of increasing sub-tables come out in order. -/
theorem flatMap_subKeys_sorted (table : MacTable V) {parts : List Nat}
    (increasing : parts.Pairwise (· < ·)) :
    (parts.flatMap (subKeys table)).Pairwise MacKey.Before := by
  rw [pairwise_flatMap]
  refine ⟨?_, increasing.imp ?_⟩
  · intro part1 _
    unfold subKeys
    rw [pairwise_map]
    exact (positionsFrom_sorted _ _ _).imp (fun below => Or.inr ⟨rfl, below⟩)
  · intro lower upper below key inLower other inUpper
    rw [mem_subKeys] at inLower inUpper
    exact Or.inl (by omega)

theorem subAhead_uncached (inner : SubTable V) (rounds : Nat) :
    subAhead inner rounds 0 0#64 false = positionsFrom inner.mask 1 (rounds - 1) := by
  cases rounds with
  | zero => rfl
  | succ rounds => simp [subAhead]

variable (mask : Nat → BitVec 64) (count : Nat)

theorem positionsFrom_one_sublist :
    (positionsFrom mask 1 (count - 1)).Sublist (positionsFrom mask 0 count) := by
  cases count with
  | zero => exact List.Sublist.refl _
  | succ count => exact sublist_append_right _ _

/-- The visible keys are some of the keys of the table, in their order. -/
theorem visibleKeys_sublist (table : MacTable V) :
    (visibleKeys table).Sublist (tableKeys table) := by
  unfold visibleKeys tableKeys
  split
  · exact List.Sublist.refl _
  · cases positionsFrom table.mask 0 maskSize with
    | nil => exact List.Sublist.refl _
    | cons part1 rest =>
      simp only [keysAhead, flatMap_cons, Nat.sub_zero, subAhead_uncached]
      exact List.Sublist.append ((positionsFrom_one_sublist _ _).map _) (List.Sublist.refl _)

theorem visibleKeys_sorted (table : MacTable V) : (visibleKeys table).Pairwise MacKey.Before :=
  (flatMap_subKeys_sorted table (positionsFrom_sorted table.mask 0 maskSize)).sublist
    (visibleKeys_sublist table)

/--
A key the iterator jumps over: sub-table 0 is not in use, the key is in the
lowest sub-table in use, and its entry is in the first word of that one.
-/
def Skipped (table : MacTable V) (key : MacKey) : Prop :=
  (table.mask 0).getLsbD 0 = false ∧ (∀ part1 < key.1, testBit table.mask part1 = false) ∧
    key.2 < 64

instance (table : MacTable V) (key : MacKey) : Decidable (Skipped table key) := by
  unfold Skipped
  infer_instance

/-- The visible keys are those that are not jumped over. -/
theorem mem_visibleKeys (wellFormed : table.WellFormed) :
    key ∈ visibleKeys table ↔ (table.contents key).isSome = true ∧ ¬ Skipped table key := by
  rw [← mem_tableKeys wellFormed]
  unfold visibleKeys Skipped
  by_cases lowBit : (table.mask 0).getLsbD 0 = true
  · simp [lowBit]
  · simp only [lowBit, Bool.false_eq_true, ↓reduceIte, true_and]
    have sorted := positionsFrom_sorted table.mask 0 maskSize
    have members : ∀ part1, part1 ∈ positionsFrom table.mask 0 maskSize ↔
          testBit table.mask part1 = true := by
      intro part1
      rw [mem_positionsFrom]
      constructor
      · exact fun member => member.2
      · intro isSet
        have inside := div_lt_maskSize (wellFormed.inside part1 isSet)
        exact ⟨⟨Nat.zero_le _, by omega⟩, isSet⟩
    unfold tableKeys
    cases shape : positionsFrom table.mask 0 maskSize with
    | nil => simp [keysAhead]
    | cons part1 rest =>
      rw [shape] at sorted members
      have least := (pairwise_cons.mp sorted).1
      have firstSet : testBit table.mask part1 = true := (members part1).mp (by simp)
      simp only [keysAhead, flatMap_cons, Nat.sub_zero, subAhead_uncached, mem_append, mem_map,
        mem_positionsFrom, mem_subKeys, mem_flatMap]
      constructor
      · rintro (⟨part2, ⟨range, isSet⟩, rfl⟩ | ⟨later, member, inLater⟩)
        · refine ⟨Or.inl ⟨rfl, by simp only; omega, isSet⟩, ?_⟩
          rintro ⟨_, small⟩
          simp only at small
          omega
        · refine ⟨Or.inr ⟨later, member, inLater⟩, ?_⟩
          rintro ⟨lowest, _⟩
          have below := least later member
          have unset := lowest part1 (by omega)
          rw [firstSet] at unset
          exact absurd unset (by simp)
      · rintro ⟨⟨isFirst, range, isSet⟩ | inRest, reached⟩
        · left
          have large : ¬ key.2 < 64 := by
            intro small
            apply reached
            refine ⟨fun lower below => ?_, small⟩
            by_contra notUnset
            have member := (members lower).mpr (by simpa using notUnset)
            rcases mem_cons.mp member with same | inRest
            · omega
            · have above := least lower inRest
              omega
          exact ⟨key.2, ⟨by omega, isSet⟩, by rw [← isFirst]⟩
        · exact Or.inr inRest

/-- A word whose bit 0 is set has it as its lowest bit. -/
theorem lowest_of_bit_zero {word : BitVec 64} (isSet : word.getLsbD 0 = true) :
    word ≠ 0#64 ∧ lowest word = 0 := by
  constructor
  · rintro rfl
    simp at isSet
  · by_contra positive
    have unset := getLsbD_of_lt_lowest (Nat.pos_of_ne_zero positive)
    rw [isSet] at unset
    exact absurd unset (by simp)

theorem partsAhead_start (table : MacTable V) (rounds : Nat) :
    partsAhead table rounds 0 (table.mask 0) = positionsFrom table.mask 0 rounds := by
  cases rounds with
  | zero | succ rounds => rfl

/-- With word 0 cached, all entries of a sub-table are ahead of its start. -/
theorem subAhead_start (inner : SubTable V) (rounds : Nat) :
    subAhead inner rounds 0 (inner.mask 0) false = positionsFrom inner.mask 0 rounds := by
  cases rounds with
  | zero => rfl
  | succ rounds => simp [subAhead, positionsFrom]

/-- What remains starts with the lowest bits of the cached words. -/
theorem remaining_eq_cons (table : MacTable V) (it : MacTableIterator C)
    (inside : it.i < maskSize ∧ it.j < maskSize) (nonzero : it.m0 ≠ 0#64 ∧ it.m1 ≠ 0#64) :
    remaining table it = (it.i * 64 + lowest it.m0, it.j * 64 + lowest it.m1) ::
        remaining table { it with m1 := clear it.m1 (lowest it.m1) } := by
  obtain ⟨wordsLeft, isWordsLeft⟩ : ∃ left, maskSize - it.i = left + 1 :=
    ⟨maskSize - it.i - 1, by omega⟩
  obtain ⟨entriesLeft, isEntriesLeft⟩ : ∃ left, maskSize - it.j = left + 1 :=
    ⟨maskSize - it.j - 1, by omega⟩
  simp only [remaining, isWordsLeft, partsAhead]
  rw [wordPositions_eq_cons it.i nonzero.1]
  simp only [cons_append, keysAhead, isEntriesLeft, subAhead, Bool.false_eq_true, ↓reduceIte]
  rw [wordPositions_eq_cons it.j nonzero.2]
  rfl

/-- With sub-table 0 in use, all keys are ahead of the start. -/
theorem remaining_start (lowBit : (table.mask 0).getLsbD 0 = true) (value : Option C) :
    remaining table
        { i := 0, j := 0, m0 := table.mask 0
          m1 := (table.sub 0).mask 0, mj := 0, mi := 0, value := value } =
      tableKeys table := by
  obtain ⟨nonzero, isLowest⟩ := lowest_of_bit_zero lowBit
  unfold remaining tableKeys
  simp only [Nat.sub_zero]
  have start : ∃ rest, positionsFrom table.mask 0 maskSize = 0 :: rest := by
    obtain ⟨left, isLeft⟩ : ∃ left, maskSize = left + 1 := Nat.exists_eq_add_one.mpr maskSize_pos
    rw [isLeft]
    simp only [positionsFrom]
    rw [wordPositions_eq_cons 0 nonzero, isLowest]
    exact ⟨_, rfl⟩
  obtain ⟨rest, shape⟩ := start
  rw [partsAhead_start, shape]
  simp only [keysAhead, flatMap_cons, Nat.sub_zero, subAhead_start]
  rfl

/-- The first position of the iterator is the first visible key. -/
theorem macTableIteratorInit_spec (setter : SubTable V → Nat → C) (table : MacTable V) :
    (visibleKeys table = [] → pgMacTableIteratorIsEnd (macTableIteratorInit setter table) = true) ∧
      ∀ key rest, visibleKeys table = key :: rest →
        Stands setter table key rest (macTableIteratorInit setter table) := by
  have positive := maskSize_pos
  unfold macTableIteratorInit visibleKeys
  by_cases lowBit : (table.mask 0).getLsbD 0 = true
  · simp only [lowBit, ↓reduceIte]
    by_cases firstEntry : ((table.sub 0).mask 0).getLsbD 0 = true
    · simp only [firstEntry, ↓reduceIte]
      obtain ⟨outerNonzero, outerLowest⟩ := lowest_of_bit_zero lowBit
      obtain ⟨innerNonzero, innerLowest⟩ := lowest_of_bit_zero firstEntry
      have shape :=
        remaining_eq_cons table
          { i := 0, j := 0, m0 := table.mask 0
            m1 := (table.sub 0).mask 0, mj := 0, mi := 0
            value := some (setter (table.sub 0) 0) }
          ⟨positive, positive⟩ ⟨outerNonzero, innerNonzero⟩
      rw [remaining_start lowBit] at shape
      simp only [outerLowest, innerLowest] at shape
      rw [shape]
      refine ⟨by simp, ?_⟩
      intro key rest isKey
      simp only [List.cons.injEq] at isKey
      obtain ⟨rfl, rfl⟩ := isKey
      exact ⟨⟨outerNonzero, outerLowest⟩, ⟨positive, positive, by simp⟩, rfl, rfl, rfl, rfl⟩
    · simp only [firstEntry, Bool.false_eq_true, ↓reduceIte]
      have next :=
        macTableIteratorNext_spec setter table
          { i := 0, j := 0, m0 := table.mask 0
            m1 := (table.sub 0).mask 0, mj := 0, mi := 0
            value := none } ⟨Nat.zero_le _, positive⟩
      rw [remaining_start lowBit] at next
      exact next
  · simp only [lowBit, Bool.false_eq_true, ↓reduceIte]
    have next :=
      macTableIteratorNext_spec setter table
        { i := 0, j := 0, m0 := table.mask 0
          m1 := 0#64, mj := 0, mi := 0, value := none } ⟨Nat.zero_le _, positive⟩
    unfold remaining at next
    simp only [Nat.sub_zero, partsAhead_start] at next
    exact next

/-- A table has at most as many keys as there are MACs. -/
theorem length_tableKeys_le (wellFormed : table.WellFormed) :
    (tableKeys table).length ≤ foreachRounds := by
  have distinct : (tableKeys table).Nodup :=
    nodup_of_before (flatMap_subKeys_sorted table (positionsFrom_sorted _ _ _))
  have inRange : (tableKeys table).toFinset ⊆ Finset.range partSize ×ˢ Finset.range partSize := by
    intro key member
    rw [mem_toFinset, mem_tableKeys wellFormed] at member
    have valid := wellFormed.valid_of_contents member
    rw [Finset.mem_product, Finset.mem_range, Finset.mem_range]
    exact valid
  calc
    (tableKeys table).length = (tableKeys table).toFinset.card :=
      (toFinset_card_of_nodup distinct).symm
    _ ≤ (Finset.range partSize ×ˢ Finset.range partSize).card :=
      Finset.card_le_card inRange
    _ = foreachRounds := by
      rw [Finset.card_product, Finset.card_range]
      rfl

section Foreach

variable {setter : SubTable V → Nat → C} {getter : C → Nat → Option V}

/-- A foreach loop over a table visits its visible keys. -/
theorem foreach_spec
    (reads : ∀ (inner : SubTable V) index, getter (setter inner index) index = inner.entries.bind
        (fun entries => entries index))
    (drop : Mac → Option V → Bool) {table : MacTable V} (wellFormed : table.WellFormed) :
    ForeachResult drop table (visibleKeys table)
      (foreachFrom setter getter drop foreachRounds table 0#64
        (macTableIteratorInit setter table)) := by
  obtain ⟨atEnd, stands⟩ := macTableIteratorInit_spec setter table
  have sorted := visibleKeys_sorted table
  have short := (visibleKeys_sublist table).length_le.trans (length_tableKeys_le wellFormed)
  have present : ∀ key ∈ visibleKeys table, (table.contents key).isSome = true :=
    fun key member => ((mem_visibleKeys wellFormed).mp member).1
  cases shape : visibleKeys table with
  | nil =>
    rw [foreachFrom_end drop _ table _ (atEnd shape)]
    exact ⟨rfl, wellFormed, by simp, rfl, fun _ => rfl⟩
  | cons key rest =>
    rw [shape] at sorted short present
    rw [length_cons] at short
    exact foreachFrom_spec reads drop rest wellFormed
      (stands key rest shape) present (nodup_of_before sorted) (by decide) (by omega)

end Foreach

section

variable (wellFormed : table.WellFormed) (drop : Mac → Option V → Bool)

include wellFormed

theorem foreachPtr_spec : ForeachResult drop table (visibleKeys table) (foreachPtr table drop) :=
  foreach_spec (fun _ _ => rfl) drop wellFormed

theorem foreachElem_spec : ForeachResult drop table (visibleKeys table) (foreachElem table drop) :=
  foreach_spec (fun _ _ => rfl) drop wellFormed

end

/-- A foreach loop whose body drops nothing it visits leaves the table. -/
theorem foreachFrom_of_kept {getter : C → Nat → Option V} {drop : Mac → Option V → Bool}
    {rounds : Nat} {old : Mac}
    (kept : ∀ visit ∈ (foreachFrom setter getter drop rounds table old it).1, drop visit.1 visit.2 =
        false) : (foreachFrom setter getter drop rounds table old it).2 = table := by
  induction rounds generalizing old it with
  | zero => rfl
  | succ rounds ih =>
    rw [foreachFrom] at kept ⊢
    split
    · rfl
    · rename_i notEnd
      rw [if_neg notEnd] at kept
      have keeps := kept _ mem_cons_self
      simp only [keeps, Bool.false_eq_true, ↓reduceIte] at kept ⊢
      exact ih (fun visit member => kept visit (mem_cons_of_mem _ member))

/-- Summing over the positions of an array is summing word by word. -/
theorem sum_positionsFrom (weight : Nat → Nat) :
    ((positionsFrom mask 0 count).map weight).sum = ((List.range' 0 count).map (fun index =>
        ((lowBits (mask index)).map (fun place => weight (index * 64 + place))).sum)).sum := by
  rw [positionsFrom_eq_flatMap]
  induction List.range' 0 count with
  | nil => rfl
  | cons index rest ih =>
    rw [flatMap_cons, map_append, sum_append, ih, map_cons, sum_cons]
    simp [wordPositions, comp_def]

/-- The number of positions of an array is counted word by word. -/
theorem length_positionsFrom :
    (positionsFrom mask 0 count).length = ((List.range' 0 count).map (fun index =>
        pgMaskCount (mask index))).sum := by
  have ones := sum_positionsFrom mask count (fun _ => 1)
  simpa [pgMaskCount] using ones

/-- The length of a table is the number of its keys. -/
theorem pgMacTableComputeLength_eq (table : MacTable V) :
    pgMacTableComputeLength table = (tableKeys table).length := by
  unfold pgMacTableComputeLength tableKeys
  rw [length_flatMap, sum_positionsFrom table.mask maskSize
      (fun part1 => (subKeys table part1).length)]
  simp only [subKeys, length_map, length_positionsFrom]

end PacketGraph
