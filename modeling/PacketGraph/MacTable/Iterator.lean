import PacketGraph.MacTable.Contents

namespace PacketGraph

open BitScan BitMap

/-!
# Iterating over a MAC table

The iterator of `mac-table-it-next.h` and the two foreach macros over it.  The
header is included twice: the pointer iterator keeps the entry it stands on,
the element iterator keeps the array the entry is in.  What is kept is the
parameter `setter` here, and how the entry is read from it the parameter
`getter`.

Loops are recursive functions whose first argument bounds the rounds that are
left, as the loop conditions of the source do.
-/

variable {V C : Type}

/-- Value of `i` once the iterator is at the end. -/
def uint32Max : Nat :=
  0xffffffff

/-- `struct pg_mac_table_iterator`, without the table it walks. -/
structure MacTableIterator (C : Type) where
  i : Nat
  j : Nat
  m0 : BitVec 64
  m1 : BitVec 64
  mj : Nat
  mi : Nat
  value : Option C

/-- How one loop of the iterator ends: it returns, or it falls through. -/
inductive Scan (C : Type) where
  | found (it : MacTableIterator C)
  | through (j : Nat) (m1 : BitVec 64) (beenOut : Bool)

/-- The loop over the words of one sub-table. -/
def scanSub (setter : SubTable V → Nat → C) (inner : SubTable V) (i mi : Nat) (m0 : BitVec 64) :
    Nat → Nat → BitVec 64 → Bool → Scan C
  | 0, j, m1, beenOut => .through j m1 beenOut
  | rounds + 1, j, m1, beenOut =>
    let m1 := if beenOut then inner.mask j else m1
    if m1 = 0#64 then
      scanSub setter inner i mi m0 rounds (j + 1) m1 true
    else
      let mj := lowest m1
      .found
        { i := i
          j := j
          m0 := m0
          m1 := clear m1 mj
          mj := mj
          mi := mi
          value := some (setter inner (j * 64 + mj)) }

/-- The loop over the sub-tables of one word. -/
def scanWord (setter : SubTable V → Nat → C) (table : MacTable V) (i : Nat) :
    Nat → BitVec 64 → Nat → BitVec 64 → Bool → Scan C
  | 0, _, j, m1, beenOut => .through j m1 beenOut
  | rounds + 1, m0, j, m1, beenOut =>
    if m0 = 0#64 then
      .through j m1 beenOut
    else
      let mi := lowest m0
      match scanSub setter (table.sub (i * 64 + mi)) i mi m0 (maskSize - j) j m1 beenOut
      with
      | .found it => .found it
      | .through _ m1 beenOut => scanWord setter table i rounds (clear m0 mi) 0 m1 beenOut

/-- The loop over the words of the table. -/
def scanTable (setter : SubTable V → Nat → C) (table : MacTable V) :
    Nat → Nat → BitVec 64 → Nat → BitVec 64 → Bool → Option (MacTableIterator C)
  | 0, _, _, _, _, _ => none
  | rounds + 1, i, m0, j, m1, beenOut =>
    match scanWord setter table i 64 m0 j m1 beenOut with
    | .found it => some it
    | .through j m1 beenOut =>
      scanTable setter table rounds (i + 1) (table.mask (i + 1)) j m1 beenOut

/-- The common body of the two iterator steps. -/
def macTableIteratorNext (setter : SubTable V → Nat → C) (table : MacTable V)
    (it : MacTableIterator C) : MacTableIterator C :=
  match scanTable setter table (maskSize - it.i) it.i it.m0 it.j it.m1 false
  with
  | some found => found
  | none => { it with i := uint32Max }

/-- The common body of the two iterator constructors. -/
def macTableIteratorInit (setter : SubTable V → Nat → C) (table : MacTable V)
    : MacTableIterator C :=
  let m0 := table.mask 0
  if m0.getLsbD 0 then
    let m1 := (table.sub 0).mask 0
    if m1.getLsbD 0 then
      { i := 0, j := 0, m0 := m0, m1 := clear m1 0, mj := 0, mi := 0
        value := some (setter (table.sub 0) 0) }
    else
      macTableIteratorNext setter table
        { i := 0, j := 0, m0 := m0, m1 := m1, mj := 0, mi := 0
          value := none }
  else
    macTableIteratorNext setter table
      { i := 0, j := 0, m0 := m0, m1 := 0#64, mj := 0, mi := 0
        value := none }

/-- `pg_mac_table_iterator_is_end`. -/
def pgMacTableIteratorIsEnd (it : MacTableIterator C) : Bool :=
  it.i = uint32Max

/-- Write the four bytes at byte 0 and then the four bytes at byte 3. -/
def pgMacTableIteratorMkKey (it : MacTableIterator C) (key : Mac) : Mac :=
  let part1 := BitVec.ofNat 32 (it.i * 64 + it.mi)
  let part2 := BitVec.ofNat 32 (it.j * 64 + it.mj)
  let key : Mac := key.extractLsb' 32 32 ++ part1
  key.extractLsb' 56 8 ++ part2 ++ key.extractLsb' 0 24

/-- The foreach loop, whose body may unset the key it is at. -/
def foreachFrom (setter : SubTable V → Nat → C) (getter : C → Nat → Option V)
    (drop : Mac → Option V → Bool) :
    Nat → MacTable V → Mac → MacTableIterator C → List (Mac × Option V) × MacTable V
  | 0, table, _, _ => ([], table)
  | rounds + 1, table, key, it =>
    if pgMacTableIteratorIsEnd it then
      ([], table)
    else
      let key := pgMacTableIteratorMkKey it key
      let value := it.value.bind (fun kept => getter kept (it.j * 64 + it.mj))
      let table :=
        if drop key value then (macTableUnset table key).2 else table
      let rest :=
        foreachFrom setter getter drop rounds table key (macTableIteratorNext setter table it)
      ((key, value) :: rest.1, rest.2)

/-- Entry of a sub-table, as `MAC_TABLE_SETTER` of the pointer iterator. -/
def ptrSetter (inner : SubTable V) (index : Nat) : Option V :=
  inner.entries.bind (fun entries => entries index)

/-- Entries of a sub-table, as `MAC_TABLE_SETTER` of the element iterator. -/
def elemSetter (inner : SubTable V) (_ : Nat) : Option (Nat → Option V) :=
  inner.entries

/-- `pg_mac_table_iterator_get`. -/
def pgMacTableIteratorGet (value : Option V) (_ : Nat) : Option V :=
  value

/-- `pg_mac_table_iterator_e_get`. -/
def pgMacTableIteratorEGet (entries : Option (Nat → Option V)) (index : Nat) : Option V :=
  entries.bind (fun entries => entries index)

/-- A bound on the rounds of a foreach loop: the number of MACs. -/
def foreachRounds : Nat :=
  2 ^ 48

/--
`PG_MAC_TABLE_FOREACH_PTR` with a body that unsets the current key when `drop`
says so: the visited keys and values in order, and the table it leaves.
-/
def foreachPtr (table : MacTable V) (drop : Mac → Option V → Bool) :
    List (Mac × Option V) × MacTable V :=
  foreachFrom ptrSetter pgMacTableIteratorGet drop foreachRounds table 0#64
    (macTableIteratorInit ptrSetter table)

/-- `PG_MAC_TABLE_FOREACH_ELEM`, in the same way. -/
def foreachElem (table : MacTable V) (drop : Mac → Option V → Bool) :
    List (Mac × Option V) × MacTable V :=
  foreachFrom elemSetter pgMacTableIteratorEGet drop foreachRounds table 0#64
    (macTableIteratorInit elemSetter table)

end PacketGraph
