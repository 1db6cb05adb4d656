import PacketGraph.Brick.Basic
import PacketGraph.Lib.BitMap

namespace PacketGraph

open BitMap BitScan Function

/-!
# The two-level MAC table

A MAC is cut in two parts of 24 bits.  The first part selects a sub-table,
allocated on its first use, and the second part an entry of the sub-table.
Bit masks tell which sub-tables and which entries are in use.

Pointer tables and element tables run the same code, on entries that hold a
pointer and on entries that hold a copied element.  Both are the table over an
arbitrary type `V` of entries; memory that was never written reads as `none`.
-/

/-- `union pg_mac`, as its `uint64_t`. -/
abbrev Mac := BitVec 64

/-- The first 24 bits of a MAC. -/
def pgMacTablePart1 (mac : Mac) : Nat :=
  (mac.extractLsb' 0 32 &&& 0x00ffffff#32).toNat

/-- The last 24 bits of a MAC, read at byte 3. -/
def pgMacTablePart2 (mac : Mac) : Nat :=
  (mac.extractLsb' 24 32 &&& 0x00ffffff#32).toNat

/-- `PG_MAC_TABLE_MASK_SIZE`. -/
@[irreducible] def maskSize : Nat :=
  0xffffff / 64 + 1

theorem maskSize_pos : 0 < maskSize := by
  unfold maskSize
  decide

/-- `pg_mac_table_is_set`. -/
abbrev pgMacTableIsSet (mask : Nat → BitVec 64) (part : Nat) : Bool :=
  testBit mask part

/-- `pg_mac_table_mask_set`. -/
abbrev pgMacTableMaskSet (mask : Nat → BitVec 64) (part : Nat) : Nat → BitVec 64 :=
  setBit mask part

/-- `pg_mac_table_mask_unset`, which toggles the bit. -/
abbrev pgMacTableMaskUnset (mask : Nat → BitVec 64) (part : Nat) : Nat → BitVec 64 :=
  flipBit mask part

/-- A sub-table; its entries are NULL when their allocation failed. -/
structure SubTable (V : Type) where
  mask : Nat → BitVec 64
  entries : Option (Nat → Option V)

/-- A MAC table; a sub-table that is not allocated is NULL. -/
structure MacTable (V : Type) where
  mask : Nat → BitVec 64
  subs : Nat → Option (SubTable V)

/-- The answers of all later calls of `pg_malloc`. -/
abbrev Malloc := Nat → Bool

/-- The answers left after some calls. -/
def Malloc.after (malloc : Malloc) (calls : Nat) : Malloc :=
  fun call => malloc (calls + call)

variable {V : Type}

/-- A sub-table as it is right after its allocation. -/
def SubTable.blank (V : Type) : SubTable V where
  mask := fun _ => 0#64
  entries := none

/-- The sub-table at a position, blank when it is not allocated. -/
def MacTable.sub (table : MacTable V) (part1 : Nat) : SubTable V :=
  (table.subs part1).getD (SubTable.blank V)

/-- Start with an empty table, unless the allocation fails. -/
def pgMacTableInit (V : Type) (malloc : Malloc) : Option (MacTable V) × Malloc :=
  if malloc 0 then
    (some { mask := fun _ => 0#64, subs := fun _ => none }, malloc.after 1)
  else
    (none, malloc.after 1)

/--
How setting an entry ends: it returns, it jumps to the exception environment
after a failed allocation, or it writes through a NULL pointer.
-/
inductive SetOutcome (V : Type) where
  | stored (table : MacTable V)
  | raised (table : MacTable V)
  | fault

/-- Mark an entry as used and write it. -/
def storeEntry (table : MacTable V) (part1 part2 : Nat) (entry : V) : SetOutcome V :=
  match table.subs part1 with
  | none => .fault
  | some inner =>
    match inner.entries with
    | none => .fault
    | some entries =>
      .stored { table with
          subs :=
            update table.subs part1 (some
                { mask := pgMacTableMaskSet inner.mask part2
                  entries :=
                    some (update entries part2 (some entry)) }) }

/-- The common body of the two functions that set an entry. -/
def macTableSet (malloc : Malloc) (table : MacTable V) (mac : Mac) (entry : V) :
    SetOutcome V × Malloc :=
  let part1 := pgMacTablePart1 mac
  let part2 := pgMacTablePart2 mac
  if pgMacTableIsSet table.mask part1 then
    (storeEntry table part1 part2 entry, malloc)
  else if malloc 0 then
    let table :=
      { mask := pgMacTableMaskSet table.mask part1
        subs := update table.subs part1 (some (SubTable.blank V)) }
    if malloc 1 then
      (storeEntry { table with
          subs :=
            update table.subs part1 (some
                { SubTable.blank V with entries := some (fun _ => none) }) }
        part1 part2 entry, malloc.after 2)
    else
      (.raised table, malloc.after 2)
  else
    (.raised { table with subs := update table.subs part1 none }, malloc.after 1)

/-- `pg_mac_table_ptr_set`, on entries that are pointers. -/
abbrev pgMacTablePtrSet (malloc : Malloc) (table : MacTable V) (mac : Mac) (pointer : V) :
    SetOutcome V × Malloc :=
  macTableSet malloc table mac pointer

/-- `pg_mac_table_elem_set`, on entries that are copied elements. -/
abbrev pgMacTableElemSet (malloc : Malloc) (table : MacTable V) (mac : Mac) (element : V) :
    SetOutcome V × Malloc :=
  macTableSet malloc table mac element

/-- The common body of the two functions that unset an entry. -/
def macTableUnset (table : MacTable V) (mac : Mac) : Int × MacTable V :=
  let part1 := pgMacTablePart1 mac
  let part2 := pgMacTablePart2 mac
  if ¬ pgMacTableIsSet table.mask part1 ∨ ¬ pgMacTableIsSet (table.sub part1).mask part2 then
    (-1, table)
  else
    (0, { table with
        subs :=
          update table.subs part1 (some { table.sub part1 with
                mask :=
                  pgMacTableMaskUnset (table.sub part1).mask part2 }) })

/-- `pg_mac_table_ptr_unset`. -/
abbrev pgMacTablePtrUnset (table : MacTable V) (mac : Mac) : Int × MacTable V :=
  macTableUnset table mac

/-- `pg_mac_table_elem_unset`. -/
abbrev pgMacTableElemUnset (table : MacTable V) (mac : Mac) : Int × MacTable V :=
  macTableUnset table mac

/-- The common body of the two functions that look up an entry. -/
def macTableGet (table : MacTable V) (mac : Mac) : Option V :=
  let part1 := pgMacTablePart1 mac
  let part2 := pgMacTablePart2 mac
  if ¬ pgMacTableIsSet table.mask part1 then
    none
  else if ¬ pgMacTableIsSet (table.sub part1).mask part2 then
    none
  else
    (table.sub part1).entries.bind (fun entries => entries part2)

/-- `pg_mac_table_ptr_get`. -/
abbrev pgMacTablePtrGet (table : MacTable V) (mac : Mac) : Option V :=
  macTableGet table mac

/-- `pg_mac_table_elem_get`. -/
abbrev pgMacTableElemGet (table : MacTable V) (mac : Mac) : Option V :=
  macTableGet table mac

/-- Free the sub-tables of one mask word; a NULL sub-table is an assertion. -/
def clearWord (table : MacTable V) (index : Nat) : Except Abort (MacTable V) :=
  if table.mask index = 0#64 then
    .ok table
  else if (lowBits (table.mask index)).any
        (fun place => (table.subs (index * 64 + place)).isNone) then
    .error .assertion
  else
    .ok
      { mask := update table.mask index 0#64
        subs := fun part1 => if part1 ∈ wordPositions index (table.mask index) then
            none
          else
            table.subs part1 }

/-- Empty a table, freeing all its sub-tables. -/
def pgMacTableClear (table : MacTable V) : Except Abort (MacTable V) :=
  (List.range' 0 maskSize).foldlM clearWord table

/-- Number of bits set in a mask. -/
def pgMaskCount (mask : BitVec 64) : Nat :=
  (lowBits mask).length

/-- Number of entries of a table. -/
def pgMacTableComputeLength (table : MacTable V) : Nat :=
  ((List.range' 0 maskSize).map (fun index => ((lowBits (table.mask index)).map (fun place =>
      ((List.range' 0 maskSize).map (fun inner =>
        pgMaskCount ((table.sub (index * 64 + place)).mask inner))).sum)).sum)).sum

end PacketGraph
