import PacketGraph.MacTable.Runs

namespace PacketGraph

open BitMap BitScan Function List

/-!
# The MAC table refines a finite map

A history of operations describes a map from the 48-bit addresses to the
entries last set and not removed since.  As long as every allocation is
granted, no history makes the table fail, and what the table answers is what
the map of its history says.

A MAC is passed as a `union pg_mac`, of which the last two bytes lie past the
address.  The table looks at the address only.
-/

/-- The six bytes of the address in a `union pg_mac`. -/
def macAddress (mac : Mac) : BitVec 48 :=
  mac.setWidth 48

/-- Two MACs have the same key exactly when their addresses are the same. -/
theorem macKey_eq_iff {mac other : Mac} :
    macKey mac = macKey other ↔ macAddress mac = macAddress other := by
  unfold macKey macAddress
  rw [pgMacTablePart1_eq, pgMacTablePart2_eq, pgMacTablePart1_eq,
    pgMacTablePart2_eq, Prod.mk.injEq, ← BitVec.toNat_inj,
    BitVec.toNat_setWidth, BitVec.toNat_setWidth]
  omega

variable {V : Type}

/-- All allocations of an operation are granted. -/
def TableOp.Granted : TableOp V → Prop
  | .init malloc => ∀ call, malloc call = true
  | .set malloc _ _ => ∀ call, malloc call = true
  | .unset _ => True
  | .clear => True

/--
The entry of the last `set` of an address, unless the address was unset or the
table emptied since.  The latest operation of a history comes first.
-/
def lastSet (address : BitVec 48) : List (TableOp V) → Option V
  | [] => none
  | .init _ :: _ => none
  | .clear :: _ => none
  | .unset mac :: earlier => if macAddress mac = address then none else lastSet address earlier
  | .set _ mac entry :: earlier =>
    if macAddress mac = address then some entry
    else lastSet address earlier

/-- The table after a history that starts with its initialisation. -/
def tableAfter : List (TableOp V) → Option (TableState V)
  | [] => some (freshTable V)
  | op :: earlier => (tableAfter earlier).bind (fun state => op.exec state)

/-- A table without failed allocations executes every granted operation. -/
theorem TableOp.Granted.executes {op : TableOp V} (granted : op.Granted) {state : TableState V}
    (refines : state.Refines) (complete : state.table.Complete) :
    ∃ after, op.exec state = some after ∧ after.table.Complete := by
  cases op with
  | init malloc =>
    have answered : malloc 0 = true := granted 0
    refine ⟨freshTable V, ?_, ?_⟩
    · simp [TableOp.exec, pgMacTableInit, answered, freshTable]
    · exact @pgMacTableInit_complete V _ mallocSucceeds rfl
  | set malloc mac entry =>
    rcases macTableSet_complete refines.wellFormed complete malloc mac entry with
      ⟨table, stored, tableComplete⟩ | ⟨⟨call, refused⟩, _⟩
    · simp only [TableOp.exec, stored]
      exact ⟨_, rfl, tableComplete⟩
    · rw [granted call] at refused
      exact absurd refused (by simp)
  | unset mac =>
    refine ⟨_, rfl, fun part1 inUse => ?_⟩
    have sameMask : (macTableUnset state.table mac).2.mask = state.table.mask := by
      unfold macTableUnset
      simp only
      split <;> rfl
    rw [sameMask] at inUse
    rw [entries_macTableUnset]
    exact complete part1 inUse
  | clear =>
    obtain ⟨table, cleared, _, unused⟩ := pgMacTableClear_unused refines.wellFormed
    simp only [TableOp.exec, cleared]
    exact ⟨_, rfl, fun part1 inUse => absurd inUse (unused part1)⟩

/-- An operation changes the expected entries as it changes its history. -/
theorem expected_exec {op : TableOp V} (granted : op.Granted) {state after : TableState V}
    (refines : state.Refines) (complete : state.table.Complete)
    (executed : op.exec state = some after) {earlier : List (TableOp V)}
    (before : ∀ mac, state.expected (macKey mac) = lastSet (macAddress mac) earlier)
    (mac : Mac) : after.expected (macKey mac) = lastSet (macAddress mac) (op :: earlier) := by
  cases op with
  | init malloc =>
    simp only [TableOp.exec, Option.map_eq_some_iff] at executed
    obtain ⟨table, _, rfl⟩ := executed
    rfl
  | set malloc changed entry =>
    rcases macTableSet_complete refines.wellFormed complete malloc changed entry with
      ⟨table, stored, _⟩ | ⟨⟨call, refused⟩, _⟩
    · simp only [TableOp.exec, stored, Option.some.injEq] at executed
      subst executed
      simp only [lastSet, update_apply, macKey_eq_iff, before]
      simp only [eq_comm]
    · rw [granted call] at refused
      exact absurd refused (by simp)
  | unset changed =>
    simp only [TableOp.exec, Option.some.injEq] at executed
    subst executed
    simp only [lastSet, update_apply, macKey_eq_iff, before]
    simp only [eq_comm]
  | clear =>
    simp only [TableOp.exec] at executed
    split at executed
    · cases executed
      rfl
    · exact absurd executed (by simp)

/-- A granted history runs, and the table refines the map it describes. -/
theorem tableAfter_refines {history : List (TableOp V)} (granted : ∀ op ∈ history, op.Granted) :
    ∃ state, tableAfter history = some state ∧ state.Refines ∧ state.table.Complete ∧ ∀ mac,
          state.expected (macKey mac) = lastSet (macAddress mac) history := by
  induction history with
  | nil =>
    exact ⟨freshTable V, rfl, tableSystem_refines freshTable_reachable,
      @pgMacTableInit_complete V _ mallocSucceeds rfl, fun _ => rfl⟩
  | cons op earlier ih =>
    obtain ⟨state, ran, refines, complete, described⟩ :=
      ih (fun other member => granted other (mem_cons_of_mem _ member))
    have opGranted := granted op mem_cons_self
    obtain ⟨after, executed, afterComplete⟩ := opGranted.executes refines complete
    refine ⟨after, ?_, refines.exec executed, afterComplete,
      expected_exec opGranted refines complete executed described⟩
    rw [tableAfter, ran]
    exact executed

/-- The address that a key stands for. -/
def keyAddress (key : MacKey) : BitVec 48 :=
  macAddress (macOfKey key)

theorem keyAddress_injOn : Set.InjOn keyAddress { key | MacKey.Valid key } := by
  intro key valid other otherValid same
  rw [← macKey_macOfKey valid, ← macKey_macOfKey otherValid]
  exact macKey_eq_iff.mpr same

/-- The length of a table is the number of addresses that have an entry. -/
theorem pgMacTableComputeLength_eq_ncard {table : MacTable V} (wellFormed : table.WellFormed)
    {described : BitVec 48 → Option V}
    (agree : ∀ mac, table.contents (macKey mac) = described (macAddress mac)) :
    pgMacTableComputeLength table = { address | (described address).isSome = true }.ncard := by
  have sorted : (tableKeys table).Pairwise MacKey.Before :=
    flatMap_subKeys_sorted table (positionsFrom_sorted _ _ _)
  have present (key : MacKey) (member : key ∈ tableKeys table) :
      MacKey.Valid key :=
    wellFormed.valid_of_contents ((mem_tableKeys wellFormed).mp member)
  have isImage : { address | (described address).isSome = true } =
        keyAddress '' ((tableKeys table).toFinset : Set MacKey) := by
    ext address
    simp only [Set.mem_ofPred_eq, Set.mem_image, Finset.mem_coe, mem_toFinset]
    constructor
    · intro isSet
      have whole : macAddress (address.setWidth 64) = address := by
        unfold macAddress
        simp
      refine ⟨macKey (address.setWidth 64), ?_, ?_⟩
      · rw [mem_tableKeys wellFormed, agree, whole]
        exact isSet
      · unfold keyAddress
        rw [← whole, ← macKey_eq_iff, whole]
        exact macKey_macOfKey (macKey_valid _)
    · rintro ⟨key, member, rfl⟩
      have isSet := (mem_tableKeys wellFormed).mp member
      rw [← macKey_macOfKey (present key member), agree] at isSet
      exact isSet
  rw [isImage, Set.InjOn.ncard_image, Set.ncard_coe_finset,
    toFinset_card_of_nodup (nodup_of_before sorted), pgMacTableComputeLength_eq]
  intro key member other otherMember
  refine keyAddress_injOn (present key ?_) (present other ?_)
  · simpa using member
  · simpa using otherMember

/--
The table refines the map that its history describes, whatever the two bytes
past an address hold: lookups, the answers and effects of unsetting, and the
computed length.
-/
theorem mac_table_refines_map (history : List (TableOp V)) (granted : ∀ op ∈ history, op.Granted) :
    ∃ state, tableAfter history = some state ∧
        (∀ mac, pgMacTablePtrGet state.table mac = lastSet (macAddress mac) history ∧
            pgMacTableElemGet state.table mac = lastSet (macAddress mac) history) ∧
        (∀ mac, (macTableUnset state.table mac).1 = 0 ↔
            (lastSet (macAddress mac) history).isSome = true) ∧
        (∀ mac other, macTableGet (macTableUnset state.table mac).2 other =
            if macAddress other = macAddress mac then none
            else macTableGet state.table other) ∧
        pgMacTableComputeLength state.table =
          { address | (lastSet address history).isSome = true }.ncard := by
  obtain ⟨state, ran, refines, _, described⟩ := tableAfter_refines granted
  have agree (mac : Mac) : state.table.contents (macKey mac) =
        lastSet (macAddress mac) history := by
    rw [refines.contents, described]
  refine ⟨state, ran, fun mac => ⟨agree mac, agree mac⟩, ?_, ?_,
    pgMacTableComputeLength_eq_ncard refines.wellFormed agree⟩
  · intro mac
    rw [(macTableUnset_spec refines.wellFormed mac).2.2, agree]
    split <;> simp_all
  · intro mac other
    rw [macTableGet_eq_contents,
      (macTableUnset_spec refines.wellFormed mac).2.1, macTableGet_eq_contents]
    simp only [macKey_eq_iff]

/-- A MAC set with stray bytes past the address is found without them. -/
theorem mac_table_refines_map_stray :
    ∃ state : TableState Nat, tableAfter [.set mallocSucceeds 0xbeef0a0000000001#64 7] =
          some state ∧
        pgMacTablePtrGet state.table 0x00000a0000000001#64 = some 7 := by
  obtain ⟨state, ran, found, _⟩ :=
    mac_table_refines_map [.set mallocSucceeds 0xbeef0a0000000001#64 7] (by
        intro op member
        rw [mem_singleton] at member
        subst member
        exact fun _ => rfl)
  refine ⟨state, ran, ?_⟩
  rw [(found 0x00000a0000000001#64).1]
  decide

end PacketGraph
