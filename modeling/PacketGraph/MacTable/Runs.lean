import PacketGraph.MacTable.Foreach
import PacketGraph.Lib.Reachability

namespace PacketGraph

open BitMap BitScan BitVec Function List TransitionSystem

/-!
# Runs of a MAC table

A run makes any operations on a table; beside the table it carries the map
that the operations describe.  The table refines the map in every state.  The
foreach loops agree with the map exactly in the states where the iterator
reaches the first word of the first sub-table in use.
-/

variable {V : Type}

/-- A table and the map of the entries last set and not removed. -/
structure TableState (V : Type) where
  table : MacTable V
  expected : MacKey → Option V

/-- An operation on a MAC table, with the answers `pg_malloc` gives to it. -/
inductive TableOp (V : Type) where
  | init (malloc : Malloc)
  | set (malloc : Malloc) (mac : Mac) (entry : V)
  | unset (mac : Mac)
  | clear

/-- Execute an operation; no state is left by a failed init or a crash. -/
def TableOp.exec (state : TableState V) : TableOp V → Option (TableState V)
  | .init malloc =>
    (pgMacTableInit V malloc).1.map (fun table => { table := table, expected := fun _ => none })
  | .set malloc mac entry =>
    match (macTableSet malloc state.table mac entry).1 with
    | .stored table =>
      some
        { table := table
          expected :=
            update state.expected (macKey mac) (some entry) }
    | .raised table => some { state with table := table }
    | .fault => none
  | .unset mac =>
    some
      { table := (macTableUnset state.table mac).2
        expected := update state.expected (macKey mac) none }
  | .clear =>
    match pgMacTableClear state.table with
    | .ok table => some { table := table, expected := fun _ => none }
    | .error _ => none

/-- The runs of a MAC table, from its first initialisation on. -/
def tableSystem (V : Type) : System (TableState V) (TableOp V) where
  initial := fun state =>
    (∃ malloc, (pgMacTableInit V malloc).1 = some state.table) ∧ state.expected = fun _ => none
  step := fun before op after => op.exec before = some after

/-- The table is well formed and holds the expected entries. -/
structure TableState.Refines (state : TableState V) : Prop where
  wellFormed : state.table.WellFormed
  contents : ∀ key, state.table.contents key = state.expected key

/-- Every operation keeps the table in agreement with the map. -/
theorem TableState.Refines.exec {before after : TableState V} (refines : before.Refines)
    {op : TableOp V} (executed : op.exec before = some after) : after.Refines := by
  cases op with
  | init malloc =>
    simp only [TableOp.exec, Option.map_eq_some_iff] at executed
    obtain ⟨table, started, rfl⟩ := executed
    obtain ⟨wellFormed, empty⟩ := pgMacTableInit_eq_some started
    exact ⟨wellFormed, empty⟩
  | set malloc mac entry =>
    simp only [TableOp.exec] at executed
    split at executed
    · rename_i table stored
      cases executed
      obtain ⟨wellFormed, changed⟩ := macTableSet_eq_stored refines.wellFormed stored
      refine ⟨wellFormed, fun key => ?_⟩
      rw [changed, refines.contents]
      exact (update_apply _ _ _ _).symm
    · rename_i table raised
      cases executed
      obtain ⟨wellFormed, kept⟩ := macTableSet_eq_raised refines.wellFormed raised
      exact ⟨wellFormed, fun key => (kept key).trans (refines.contents key)⟩
    · exact absurd executed (by simp)
  | unset mac =>
    simp only [TableOp.exec, Option.some.injEq] at executed
    subst executed
    obtain ⟨wellFormed, changed, _⟩ := macTableUnset_spec refines.wellFormed mac
    refine ⟨wellFormed, fun key => ?_⟩
    rw [changed, refines.contents]
    exact (update_apply _ _ _ _).symm
  | clear =>
    obtain ⟨table, cleared, wellFormed, empty⟩ := pgMacTableClear_spec refines.wellFormed
    simp only [TableOp.exec, cleared, Option.some.injEq] at executed
    subst executed
    exact ⟨wellFormed, empty⟩

/-- In every reachable state the table refines the map. -/
theorem tableSystem_refines {state : TableState V} (reachable : (tableSystem V).Reachable state) :
    state.Refines := by
  refine reachable.invariant ?_ ?_
  · rintro start ⟨⟨malloc, started⟩, empty⟩
    obtain ⟨wellFormed, noEntry⟩ := pgMacTableInit_eq_some started
    exact ⟨wellFormed, fun key => by rw [noEntry, empty]⟩
  · intro before op after refines executed
    exact refines.exec executed

/-- A foreach loop visited the entries of a map, in order and once each. -/
structure VisitsExactly (expected : MacKey → Option V) (visited : List (Mac × Option V))
    : Prop where
  ordered : visited.Pairwise (fun entry later => (macKey entry.1).Before (macKey later.1))
  exact : ∀ mac value, (mac, value) ∈ visited ↔ mac.toNat < 2 ^ 48 ∧ value.isSome = true ∧
          expected (macKey mac) = value

/--
The iterator reaches the first word of the first sub-table in use: either
sub-table 0 is in use, or that word holds no entry.
-/
def FirstWordReached (table : MacTable V) : Prop :=
  testBit table.mask 0 = true ∨ ∀ part1, testBit table.mask part1 = true →
      (∀ lower < part1, testBit table.mask lower = false) → (table.sub part1).mask 0 = 0#64

theorem macOfKey_macKey {mac : Mac} (small : mac.toNat < 2 ^ 48) : macOfKey (macKey mac) = mac := by
  apply eq_of_toNat_eq
  rw [toNat_macOfKey_macKey, Nat.mod_eq_of_lt small]

/-- No entry is jumped over exactly when the first word is reached. -/
theorem firstWordReached_iff {table : MacTable V} (wellFormed : table.WellFormed) :
    FirstWordReached table ↔ ∀ key, (table.contents key).isSome = true → ¬ Skipped table key := by
  have zeroBit : testBit table.mask 0 = (table.mask 0).getLsbD 0 := rfl
  unfold FirstWordReached Skipped
  rw [zeroBit]
  constructor
  · rintro (lowBit | emptyWord) key present ⟨noLowBit, lowest, small⟩
    · rw [lowBit] at noLowBit
      exact absurd noLowBit (by simp)
    · obtain ⟨outer, inner⟩ := (wellFormed.contents_isSome key).mp present
      have noEntry := emptyWord key.1 outer lowest
      unfold testBit at inner
      rw [Nat.div_eq_of_lt small, noEntry] at inner
      simp at inner
  · intro reached
    by_cases lowBit : (table.mask 0).getLsbD 0 = true
    · exact Or.inl lowBit
    · refine Or.inr fun part1 outer lowest => ?_
      rw [BitScan.eq_zero_iff]
      intro place
      by_contra isSet
      have small : place < 64 := lt_of_getLsbD (by simpa using isSet)
      have inner : testBit (table.sub part1).mask place = true := by
        unfold testBit
        rw [Nat.div_eq_of_lt small, Nat.mod_eq_of_lt small]
        simpa using isSet
      exact reached (part1, place) ((wellFormed.contents_isSome (part1, place)).mpr ⟨outer, inner⟩)
        ⟨by simpa using lowBit, lowest, small⟩

/-- What a loop over all visible keys has to do with the map. -/
theorem visitsExactly_iff {state : TableState V} (refines : state.Refines)
    {drop : Mac → Option V → Bool} {result : List (Mac × Option V) × MacTable V}
    (looped : ForeachResult drop state.table (visibleKeys state.table) result) :
    VisitsExactly state.expected result.1 ↔ FirstWordReached state.table := by
  rw [firstWordReached_iff refines.wellFormed]
  have visible {key : MacKey} : key ∈ visibleKeys state.table ↔ _ :=
    mem_visibleKeys refines.wellFormed
  have valid : ∀ key ∈ visibleKeys state.table, MacKey.Valid key :=
    fun key member => refines.wellFormed.valid_of_contents (visible.mp member).1
  constructor
  · intro visits key present skipped
    have inRange := refines.wellFormed.valid_of_contents present
    have member : (macOfKey key, state.table.contents key) ∈ result.1 := by
      rw [visits.exact, macKey_macOfKey inRange, refines.contents]
      refine ⟨?_, by rw [← refines.contents]; exact present, rfl⟩
      have whole := toNat_macOfKey_macKey (macOfKey key)
      rw [macKey_macOfKey inRange] at whole
      omega
    rw [looped.visited, mem_map] at member
    obtain ⟨other, otherMember, same⟩ := member
    have sameKey : other = key := by
      have macs := congrArg (fun entry => macKey entry.1) same
      simp only at macs
      rwa [macKey_macOfKey (valid other otherMember), macKey_macOfKey inRange] at macs
    rw [sameKey] at otherMember
    exact (visible.mp otherMember).2 skipped
  · intro reached
    constructor
    · rw [looped.visited, pairwise_map]
      refine (visibleKeys_sorted state.table).imp_of_mem ?_
      intro key other keyMember otherMember before
      simp only
      rw [macKey_macOfKey (valid key keyMember), macKey_macOfKey (valid other otherMember)]
      exact before
    · intro mac value
      rw [looped.visited, mem_map]
      constructor
      · rintro ⟨key, member, same⟩
        simp only [Prod.mk.injEq] at same
        obtain ⟨rfl, rfl⟩ := same
        have inRange := valid key member
        have whole := toNat_macOfKey_macKey (macOfKey key)
        rw [macKey_macOfKey inRange] at whole ⊢
        exact ⟨by omega, (visible.mp member).1, (refines.contents key).symm⟩
      · rintro ⟨small, present, isValue⟩
        have found : (state.table.contents (macKey mac)).isSome = true := by
          rw [refines.contents, isValue]
          exact present
        refine ⟨macKey mac, visible.mpr ⟨found, reached _ found⟩, ?_⟩
        rw [macOfKey_macKey small, refines.contents, isValue]

/--
Iteration over a reachable table is complete, for both loops and any keys
unset by their body, exactly when the iterator reaches the first word of the
first sub-table in use.
-/
theorem foreach_complete_iff {state : TableState V} (reachable : (tableSystem V).Reachable state) :
    (∀ drop, VisitsExactly state.expected (foreachPtr state.table drop).1 ∧
        VisitsExactly state.expected (foreachElem state.table drop).1) ↔
      FirstWordReached state.table := by
  have refines := tableSystem_refines reachable
  constructor
  · intro complete
    exact (visitsExactly_iff refines (foreachPtr_spec refines.wellFormed (fun _ _ => false))).mp
      (complete _).1
  · intro reached drop
    exact ⟨(visitsExactly_iff refines (foreachPtr_spec refines.wellFormed drop)).mpr reached,
        (visitsExactly_iff refines (foreachElem_spec refines.wellFormed drop)).mpr reached⟩

/-- All later allocations succeed. -/
def mallocSucceeds : Malloc :=
  fun _ => true

/-- The state right after the first initialisation. -/
def freshTable (V : Type) : TableState V where
  table := { mask := fun _ => 0#64, subs := fun _ => none }
  expected := fun _ => none

theorem freshTable_reachable : (tableSystem V).Reachable (freshTable V) :=
  .initial ⟨⟨mallocSucceeds, rfl⟩, rfl⟩

/-- A single MAC set in a fresh table. -/
def singleEntry (mac : Mac) (entry : V) : TableState V where
  table :=
    { mask := setBit (fun _ => 0#64) (pgMacTablePart1 mac)
      subs :=
        update (fun _ => none) (pgMacTablePart1 mac) (some
            { mask := setBit (fun _ => 0#64) (pgMacTablePart2 mac)
              entries :=
                some (update (fun _ => none) (pgMacTablePart2 mac) (some entry)) }) }
  expected := update (fun _ => none) (macKey mac) (some entry)

/-- Setting one MAC in a fresh table is a run. -/
theorem singleEntry_reachable (mac : Mac) (entry : V) :
    (tableSystem V).Reachable (singleEntry mac entry) := by
  refine .step (.set mallocSucceeds mac entry) freshTable_reachable ?_
  have unset : testBit (fun _ => 0#64) (pgMacTablePart1 mac) = false := by simp [testBit]
  simp [tableSystem, TableOp.exec, macTableSet, freshTable, unset,
    mallocSucceeds, storeEntry, singleEntry, SubTable.blank]

/--
Iteration misses the only entry of a table whose sole MAC is
01:00:00:00:00:00.
-/
theorem foreach_misses_single_entry :
    ∃ state : TableState Nat,
      (tableSystem Nat).Reachable state ∧ state.expected (macKey 1#64) = some 1337 ∧
        (foreachPtr state.table (fun _ _ => false)).1 = [] ∧
        (foreachElem state.table (fun _ _ => false)).1 = [] := by
  have reachable := singleEntry_reachable (V := Nat) 1#64 1337
  have refines := tableSystem_refines reachable
  have nothingVisible : visibleKeys (singleEntry 1#64 1337).table = [] := by
    rw [eq_nil_iff_forall_not_mem]
    intro key member
    obtain ⟨present, reached⟩ := (mem_visibleKeys refines.wellFormed).mp member
    have isKey : key = (1, 0) := by
      rw [refines.contents] at present
      by_contra other
      have onlyKey : macKey 1#64 = (1, 0) := by decide
      simp [singleEntry, onlyKey, update_of_ne other] at present
    subst isKey
    apply reached
    refine ⟨by decide, ?_, by decide⟩
    intro part1 below
    have isZero : part1 = 0 := by
      simp only at below
      omega
    subst isZero
    decide
  refine ⟨singleEntry 1#64 1337, reachable, by decide, ?_, ?_⟩
  · rw [(foreachPtr_spec refines.wellFormed _).visited, nothingVisible]
    rfl
  · rw [(foreachElem_spec refines.wellFormed _).visited, nothingVisible]
    rfl

/-- Iteration is complete on a table whose sole MAC has first part 0. -/
theorem foreach_complete_single_entry :
    (tableSystem Nat).Reachable (singleEntry 0x2a000000#64 1337) ∧
      VisitsExactly (singleEntry 0x2a000000#64 1337).expected
        (foreachPtr (singleEntry 0x2a000000#64 1337).table (fun _ _ => true)).1 :=
  ⟨singleEntry_reachable _ _, ((foreach_complete_iff (singleEntry_reachable _ _)).mpr
      (Or.inl (by decide)) _).1⟩

end PacketGraph
