import PacketGraph.MacTable.Iterator

namespace PacketGraph

open BitMap BitScan List

/-!
# What the MAC table iterator has still to visit

The saved fields of an iterator determine a list of keys, those it will visit.
One step moves to the head of that list and leaves its tail, and unsetting the
key the iterator stands on does not change the tail.
-/

variable {V C : Type}

/-- The entries of a sub-table that a scan from word `j` meets. -/
def subAhead (inner : SubTable V) :
    Nat → Nat → BitVec 64 → Bool → List Nat
  | 0, _, _, _ => []
  | rounds + 1, j, m1, beenOut =>
    wordPositions j (if beenOut then inner.mask j else m1) ++
      positionsFrom inner.mask (j + 1) rounds

/-- All keys of one sub-table. -/
def subKeys (table : MacTable V) (part1 : Nat) : List MacKey :=
  (positionsFrom (table.sub part1).mask 0 maskSize).map (fun part2 => (part1, part2))

/-- The keys met by a scan of the given sub-tables, the first from word `j`. -/
def keysAhead (table : MacTable V) (parts : List Nat) (j : Nat) (m1 : BitVec 64) (beenOut : Bool)
    : List MacKey :=
  match parts with
  | [] => []
  | part1 :: rest =>
    (subAhead (table.sub part1) (maskSize - j) j m1 beenOut).map (fun part2 => (part1, part2)) ++
      rest.flatMap (subKeys table)

/-- The sub-tables met by a scan from word `i`, of which `m0` is left. -/
def partsAhead (table : MacTable V) :
    Nat → Nat → BitVec 64 → List Nat
  | 0, _, _ => []
  | rounds + 1, i, m0 => wordPositions i m0 ++ positionsFrom table.mask (i + 1) rounds

/-- The keys an iterator has still to visit. -/
def remaining (table : MacTable V) (it : MacTableIterator C) : List MacKey :=
  keysAhead table (partsAhead table (maskSize - it.i) it.i it.m0) it.j it.m1 false

/-- A scan that starts at word 0 after the first one meets all entries. -/
theorem subAhead_beenOut (inner : SubTable V) (rounds j : Nat) (m1 : BitVec 64) :
    subAhead inner rounds j m1 true = positionsFrom inner.mask j rounds := by
  cases rounds with
  | zero => rfl
  | succ rounds => simp [subAhead, positionsFrom]

variable (table : MacTable V)

/-- After the first sub-table, a scan meets all keys of the others. -/
theorem keysAhead_beenOut (parts : List Nat) (m1 : BitVec 64) :
    keysAhead table parts 0 m1 true = parts.flatMap (subKeys table) := by
  cases parts with
  | nil => rfl
  | cons part1 rest => simp [keysAhead, subAhead_beenOut, subKeys]

/-- More sub-tables behind a nonempty list are scanned whole. -/
theorem keysAhead_append {parts : List Nat} (nonempty : parts ≠ []) (later : List Nat) (j : Nat)
    (m1 : BitVec 64) (beenOut : Bool) :
    keysAhead table (parts ++ later) j m1 beenOut = keysAhead table parts j m1 beenOut ++
        later.flatMap (subKeys table) := by
  cases parts with
  | nil => exact absurd rfl nonempty
  | cons part1 rest => simp [keysAhead]

/-- The iterator stands on an entry of one sub-table. -/
structure StandsInSub (setter : SubTable V → Nat → C) (inner : SubTable V) (i mi : Nat)
    (m0 : BitVec 64) (part2 : Nat) (rest : List Nat) (it : MacTableIterator C) : Prop where
  word : it.i = i
  place : it.mi = mi
  left : it.m0 = m0
  inside : it.j < maskSize ∧ it.mj < 64
  entry : it.j * 64 + it.mj = part2
  value : it.value = some (setter inner part2)
  ahead : subAhead inner (maskSize - it.j) it.j it.m1 false = rest

variable (setter : SubTable V → Nat → C)

/-- The loop over a sub-table stops at the first entry ahead of it. -/
theorem scanSub_spec (inner : SubTable V) (i mi : Nat) (m0 : BitVec 64) (rounds j : Nat)
    (m1 : BitVec 64) (beenOut : Bool) (fits : j + rounds = maskSize) :
    (subAhead inner rounds j m1 beenOut = [] → ∃ lastJ lastM1,
        scanSub setter inner i mi m0 rounds j m1 beenOut =
          .through lastJ lastM1 (decide (0 < rounds) || beenOut)) ∧
      ∀ part2 rest, subAhead inner rounds j m1 beenOut = part2 :: rest → ∃ it,
          scanSub setter inner i mi m0 rounds j m1 beenOut = .found it ∧
            StandsInSub setter inner i mi m0 part2 rest it := by
  induction rounds generalizing j m1 beenOut with
  | zero =>
    refine ⟨fun _ => ⟨j, m1, by simp [scanSub]⟩, ?_⟩
    intro part2 rest shape
    simp [subAhead] at shape
  | succ rounds ih =>
    obtain ⟨word, isWord⟩ : ∃ word, word = if beenOut then inner.mask j else m1 := ⟨_, rfl⟩
    simp only [subAhead, scanSub, ← isWord]
    by_cases isZero : word = 0#64
    · subst isZero
      have later := ih (j + 1) 0#64 true (by omega)
      rw [subAhead_beenOut] at later
      simpa using later
    · simp only [isZero, ↓reduceIte]
      rw [wordPositions_eq_cons j isZero]
      refine ⟨by simp, ?_⟩
      intro part2 rest shape
      simp only [cons_append, List.cons.injEq] at shape
      obtain ⟨isPart2, isRest⟩ := shape
      refine ⟨_, rfl, rfl, rfl, rfl, ⟨by simp; omega, lowest_lt isZero⟩,
        isPart2, by simp [isPart2], ?_⟩
      have roundsLeft : maskSize - j = rounds + 1 := by omega
      simp only [roundsLeft, subAhead, Bool.false_eq_true, ↓reduceIte]
      exact isRest

/-- The iterator stands on a key, in the sub-tables of its own word. -/
structure StandsInWord (setter : SubTable V → Nat → C) (table : MacTable V) (key : MacKey)
    (rest : List MacKey) (i : Nat) (it : MacTableIterator C) : Prop where
  word : it.i = i
  current : it.m0 ≠ 0#64 ∧ lowest it.m0 = it.mi
  inside : it.j < maskSize ∧ it.mj < 64
  first : it.i * 64 + it.mi = key.1
  second : it.j * 64 + it.mj = key.2
  value : it.value = some (setter (table.sub key.1) key.2)
  ahead : keysAhead table (wordPositions it.i it.m0) it.j it.m1 false = rest

/-- The keys ahead in the sub-tables of one word, with the first of them. -/
theorem keysAhead_wordPositions (i : Nat) {m0 : BitVec 64} (nonzero : m0 ≠ 0#64) (j : Nat)
    (m1 : BitVec 64) (beenOut : Bool) :
    keysAhead table (wordPositions i m0) j m1 beenOut = (subAhead (table.sub (i * 64 + lowest m0))
          (maskSize - j) j m1 beenOut).map
          (fun part2 => (i * 64 + lowest m0, part2)) ++
        keysAhead table (wordPositions i (clear m0 (lowest m0))) 0 0#64 true := by
  rw [wordPositions_eq_cons i nonzero, keysAhead_beenOut]
  rfl

variable (table : MacTable V)

/-- The loop over the sub-tables of a word stops at the first key ahead. -/
theorem scanWord_spec (i rounds : Nat) (m0 : BitVec 64) (j : Nat) (m1 : BitVec 64) (beenOut : Bool)
    (enough : (wordPositions i m0).length ≤ rounds) (inside : j < maskSize) :
    (keysAhead table (wordPositions i m0) j m1 beenOut = [] → ∃ lastJ lastM1 lastOut,
        scanWord setter table i rounds m0 j m1 beenOut = .through lastJ lastM1 lastOut ∧
          (m0 = 0#64 → lastJ = j ∧ lastM1 = m1 ∧ lastOut = beenOut) ∧
          (m0 ≠ 0#64 → lastJ = 0 ∧ lastOut = true)) ∧
      ∀ key rest, keysAhead table (wordPositions i m0) j m1 beenOut = key :: rest → ∃ it,
          scanWord setter table i rounds m0 j m1 beenOut = .found it ∧
            StandsInWord setter table key rest i it := by
  induction rounds generalizing m0 j m1 beenOut with
  | zero =>
    have none_left : wordPositions i m0 = [] := eq_nil_of_length_eq_zero (Nat.le_zero.mp enough)
    have isZero : m0 = 0#64 := by
      by_contra nonzero
      rw [wordPositions_eq_cons i nonzero] at none_left
      exact absurd none_left (by simp)
    refine ⟨fun _ => ⟨j, m1, beenOut, rfl, fun _ => ⟨rfl, rfl, rfl⟩,
      fun nonzero => absurd isZero nonzero⟩, ?_⟩
    intro key rest shape
    rw [none_left] at shape
    simp [keysAhead] at shape
  | succ rounds ih =>
    by_cases isZero : m0 = 0#64
    · subst isZero
      refine ⟨fun _ => ⟨j, m1, beenOut, by simp [scanWord],
        fun _ => ⟨rfl, rfl, rfl⟩, fun nonzero => absurd rfl nonzero⟩, ?_⟩
      intro key rest shape
      simp [keysAhead] at shape
    · rw [keysAhead_wordPositions table i isZero]
      obtain ⟨fallsThrough, stops⟩ :=
        scanSub_spec setter (table.sub (i * 64 + lowest m0)) i (lowest m0)
          m0 (maskSize - j) j m1 beenOut (by omega)
      have fewer : (wordPositions i (clear m0 (lowest m0))).length ≤ rounds := by
        rw [wordPositions_eq_cons i isZero, length_cons] at enough
        omega
      cases shape : subAhead (table.sub (i * 64 + lowest m0)) (maskSize - j) j m1 beenOut with
      | nil =>
        obtain ⟨lastJ, lastM1, through⟩ := fallsThrough shape
        have positive : 0 < maskSize - j := by omega
        simp only [positive, decide_true, Bool.true_or] at through
        have later := ih (clear m0 (lowest m0)) 0 lastM1 true fewer maskSize_pos
        rw [keysAhead_beenOut, ← keysAhead_beenOut table _ 0#64] at later
        have unfolded : scanWord setter table i (rounds + 1) m0 j m1 beenOut =
              scanWord setter table i rounds (clear m0 (lowest m0)) 0 lastM1 true := by
          simp only [scanWord, isZero, ↓reduceIte, through]
        rw [unfolded, map_nil, nil_append]
        refine ⟨?_, later.2⟩
        intro empty
        obtain ⟨endJ, endM1, endOut, ended, stayed, moved⟩ := later.1 empty
        refine ⟨endJ, endM1, endOut, ended, fun zero => absurd zero isZero, fun _ => ?_⟩
        by_cases last : clear m0 (lowest m0) = 0#64
        · exact ⟨(stayed last).1, (stayed last).2.2⟩
        · exact moved last
      | cons part2 more =>
        obtain ⟨it, found, stands⟩ := stops part2 more shape
        refine ⟨by simp, ?_⟩
        intro key rest isKey
        simp only [map_cons, cons_append, List.cons.injEq] at isKey
        obtain ⟨rfl, rfl⟩ := isKey
        refine ⟨it, by simp only [scanWord, isZero, ↓reduceIte, found],
          stands.word, ?_, stands.inside, ?_, stands.entry, stands.value, ?_⟩
        · rw [stands.left, stands.place]
          exact ⟨isZero, rfl⟩
        · rw [stands.word, stands.place]
        · rw [stands.word, stands.left, keysAhead_wordPositions table i isZero, stands.ahead]

/-- The iterator stands on a key of the table. -/
structure Stands (setter : SubTable V → Nat → C) (table : MacTable V) (key : MacKey)
    (rest : List MacKey) (it : MacTableIterator C) : Prop where
  current : it.m0 ≠ 0#64 ∧ lowest it.m0 = it.mi
  inside : it.i < maskSize ∧ it.j < maskSize ∧ it.mj < 64
  first : it.i * 64 + it.mi = key.1
  second : it.j * 64 + it.mj = key.2
  value : it.value = some (setter (table.sub key.1) key.2)
  ahead : remaining table it = rest

/-- The positions of a word are empty only for the zero word. -/
theorem wordPositions_eq_nil_iff {i : Nat} {m0 : BitVec 64} :
    wordPositions i m0 = [] ↔ m0 = 0#64 := by
  constructor
  · intro empty
    by_contra nonzero
    rw [wordPositions_eq_cons i nonzero] at empty
    exact absurd empty (by simp)
  · rintro rfl
    exact wordPositions_zero i

theorem length_wordPositions_le (i : Nat) (m0 : BitVec 64) : (wordPositions i m0).length ≤ 64 := by
  unfold wordPositions
  rw [length_map, lowBits_eq_setPositions]
  exact (length_filter_le _ _).trans (by simp)

/-- The loop over the words of a table stops at the first key ahead. -/
theorem scanTable_spec (rounds i : Nat) (m0 : BitVec 64) (j : Nat)
    (m1 : BitVec 64) (beenOut : Bool) (fits : i + rounds = maskSize) (inside : j < maskSize) :
    (keysAhead table (partsAhead table rounds i m0) j m1 beenOut = [] →
      scanTable setter table rounds i m0 j m1 beenOut = none) ∧
      ∀ key rest, keysAhead table (partsAhead table rounds i m0) j m1 beenOut = key :: rest → ∃ it,
          scanTable setter table rounds i m0 j m1 beenOut = some it ∧
            Stands setter table key rest it := by
  induction rounds generalizing i m0 j m1 beenOut with
  | zero =>
    refine ⟨fun _ => rfl, ?_⟩
    intro key rest shape
    simp [partsAhead, keysAhead] at shape
  | succ rounds ih =>
    obtain ⟨fallsThrough, stops⟩ :=
      scanWord_spec setter table i 64 m0 j m1 beenOut (length_wordPositions_le i m0) inside
    have nextParts : positionsFrom table.mask (i + 1) rounds =
          partsAhead table rounds (i + 1) (table.mask (i + 1)) := by
      cases rounds with
      | zero | succ rounds => rfl
    cases shape : keysAhead table (wordPositions i m0) j m1 beenOut with
    | nil =>
      obtain ⟨lastJ, lastM1, lastOut, through, stayed, moved⟩ := fallsThrough shape
      have lastInside : lastJ < maskSize := by
        by_cases isZero : m0 = 0#64
        · rw [(stayed isZero).1]
          exact inside
        · rw [(moved isZero).1]
          exact maskSize_pos
      have sameKeys : keysAhead table (partsAhead table (rounds + 1) i m0) j m1 beenOut =
            keysAhead table (partsAhead table rounds (i + 1) (table.mask (i + 1)))
              lastJ lastM1 lastOut := by
        by_cases isZero : m0 = 0#64
        · obtain ⟨rfl, rfl, rfl⟩ := stayed isZero
          simp [partsAhead, isZero, nextParts]
        · obtain ⟨rfl, rfl⟩ := moved isZero
          have nonempty : wordPositions i m0 ≠ [] :=
            fun empty => isZero (wordPositions_eq_nil_iff.mp empty)
          rw [← nextParts, keysAhead_beenOut]
          simp only [partsAhead]
          rw [keysAhead_append table nonempty, shape, nil_append]
      have unfolded : scanTable setter table (rounds + 1) i m0 j m1 beenOut =
            scanTable setter table rounds (i + 1) (table.mask (i + 1)) lastJ lastM1 lastOut := by
        simp only [scanTable, through]
      rw [sameKeys, unfolded]
      exact ih (i + 1) (table.mask (i + 1)) lastJ lastM1 lastOut (by omega) lastInside
    | cons head more =>
      obtain ⟨it, found, stands⟩ := stops head more shape
      have nonempty : wordPositions i m0 ≠ [] := by
        intro empty
        simp [empty, keysAhead] at shape
      have stillNonempty : wordPositions i it.m0 ≠ [] :=
        fun empty => stands.current.1 (wordPositions_eq_nil_iff.mp empty)
      simp only [partsAhead]
      rw [keysAhead_append table nonempty, shape]
      refine ⟨by simp, ?_⟩
      intro key rest isKey
      simp only [cons_append, List.cons.injEq] at isKey
      obtain ⟨rfl, rfl⟩ := isKey
      have inWord := stands.word
      refine ⟨it, by simp only [scanTable, found], stands.current,
        ⟨by omega, stands.inside⟩, stands.first, stands.second, stands.value, ?_⟩
      have roundsLeft : maskSize - it.i = rounds + 1 := by omega
      have moreKeys := stands.ahead
      rw [inWord] at moreKeys
      unfold remaining
      rw [roundsLeft, inWord]
      simp only [partsAhead]
      rw [keysAhead_append table stillNonempty, moreKeys]

/-- One step of the iterator moves to the head of what remains. -/
theorem macTableIteratorNext_spec (it : MacTableIterator C)
    (inside : it.i ≤ maskSize ∧ it.j < maskSize) :
    (remaining table it = [] → pgMacTableIteratorIsEnd (macTableIteratorNext setter table it) =
        true) ∧
      ∀ key rest, remaining table it = key :: rest → Stands setter table key rest
          (macTableIteratorNext setter table it) := by
  obtain ⟨ends, stops⟩ :=
    scanTable_spec setter table (maskSize - it.i) it.i it.m0 it.j it.m1 false (by omega) inside.2
  unfold macTableIteratorNext
  constructor
  · intro empty
    rw [ends empty]
    simp [pgMacTableIteratorIsEnd]
  · intro key rest shape
    obtain ⟨found, scanned, stands⟩ := stops key rest shape
    rw [scanned]
    exact stands

end PacketGraph
