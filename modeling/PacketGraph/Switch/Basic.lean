import PacketGraph.Flow.Basic
import PacketGraph.MacTable.Iterator

namespace PacketGraph

open BitScan

/-!
# The switch brick

The switch learns from which port each source MAC came and forwards packets to
the port of their destination, or to all ports when it does not know it.  The
entries of its MAC table point into the `sources` arrays.

When an allocation of the table fails, `switch_burst` is resumed at its
`setjmp`: the table is dropped, made again, and the burst handled from its
start.  The number of these rounds is bounded by an argument here.
-/

/-- `struct pg_address_source`. -/
structure AddressSource where
  edgeIndex : Nat
  fromSide : Side
  deriving Repr, DecidableEq

/-- A pointer into the `sources` arrays of a switch. -/
abbrev SourcePointer := Side × Nat

/-- `struct pg_switch_state`, without the brick it starts with. -/
structure SwitchState where
  table : MacTable SourcePointer
  isTableDead : Bool
  output : Side
  sources : Side → Nat → AddressSource
  masks : Side → Nat → BitVec 64

/-- The packets of a mask are marked for every port up to `nb`. -/
def flood (nb : Side → Nat) (masks : Side → Nat → BitVec 64) (mask : BitVec 64) :
    Side → Nat → BitVec 64 :=
  if mask = 0#64 then
    masks
  else
    fun side index => if index < nb side then masks side index ||| mask else masks side index

/-- Overwrite the mask of one port. -/
def setMask (masks : Side → Nat → BitVec 64) (side : Side) (index : Nat) (mask : BitVec 64) :
    Side → Nat → BitVec 64 :=
  fun other place => if other = side ∧ place = index then mask else masks other place

/-- Destinations in 01:80:C2:00:00:00 to 01:80:C2:00:00:0F. -/
def isFiltered (frame : Frame) : Bool :=
  frame (dAddr + 0) = 0x01#8 && frame (dAddr + 1) = 0x80#8 && frame (dAddr + 2) = 0xC2#8 &&
    frame (dAddr + 3) = 0x00#8 && frame (dAddr + 4) = 0x00#8 &&
    decide ((frame (dAddr + 5)).toNat ≤ 0x0F)

/-- What the learning loop of a burst leaves. -/
inductive Learning where
  | learned (table : MacTable SourcePointer) (filteredMask floodMask : BitVec 64)
  | raised (malloc : Malloc)
  | fault

/-- The loop of `do_learn_filter_multicast` over the packets of a mask. -/
def learnFrom (source : SourcePointer) (pkts : Nat → Frame) :
    List Nat → Malloc → MacTable SourcePointer → BitVec 64 → BitVec 64 → Learning
  | [], _, table, filteredMask, floodMask => .learned table filteredMask floodMask
  | i :: rest, malloc, table, filteredMask, floodMask =>
    match pgMacTablePtrSet malloc table (macAt (pkts i) sAddr) source with
    | (.fault, _) => .fault
    | (.raised _, malloc) => .raised malloc
    | (.stored table, malloc) =>
      if isFiltered (pkts i) then
        learnFrom source pkts rest malloc table (filteredMask ||| (1#64 <<< i)) floodMask
      else if isMulticastEtherAddr (pkts i) dAddr then
        learnFrom source pkts rest malloc table filteredMask (floodMask ||| (1#64 <<< i))
      else
        learnFrom source pkts rest malloc table filteredMask floodMask

/-- The loop of `do_switch` over the packets of a mask. -/
def switchFrom (table : MacTable SourcePointer) (sources : Side → Nat → AddressSource)
    (pkts : Nat → Frame) :
    List Nat → (Side → Nat → BitVec 64) → BitVec 64 → (Side → Nat → BitVec 64) × BitVec 64
  | [], masks, floodMask => (masks, floodMask)
  | i :: rest, masks, floodMask =>
    match pgMacTablePtrGet table (macAt (pkts i) dAddr) with
    | some pointer =>
      let entry := sources pointer.1 pointer.2
      switchFrom table sources pkts rest (setMask masks entry.fromSide entry.edgeIndex
          (masks entry.fromSide entry.edgeIndex ||| (1#64 <<< i))) floodMask
    | none => switchFrom table sources pkts rest masks (floodMask ||| (1#64 <<< i))

variable {ι : Type}

/--
The neighbours of a switch: the result codes of their bursts, and what is left
of the marks of the switch when they return.  A neighbour that bursts back into
the switch before it returns makes it add and send marks.  What the switch
learns and sends then is a burst of its own.
-/
structure Neighbours where
  answers : Answers
  marks : Nat → (Side → Nat → BitVec 64) → Side → Nat → BitVec 64

/-- The neighbours after some calls. -/
def Neighbours.after (neighbours : Neighbours) (calls : Nat) : Neighbours where
  answers := neighbours.answers.after calls
  marks := fun call => neighbours.marks (calls + call)

/-- No neighbour bursts back into the switch before it returns. -/
def Neighbours.KeepAway (neighbours : Neighbours) : Prop :=
  ∀ call masks, neighbours.marks call masks = masks

/-- What forwarding on some ports does. -/
structure Forwarding (ι : Type) where
  code : Int
  masks : Side → Nat → BitVec 64
  sends : List (Send ι)

/-- `forward` on the given ports, one after the other until one fails. -/
def forwardPorts (brick : Brick ι) :
    List (Side × Nat) → Neighbours → (Side → Nat → BitVec 64) → Forwarding ι
  | [], _, masks => { code := 0, masks := masks, sends := [] }
  | (toSide, index) :: rest, neighbours, masks =>
    match (brick.sides toSide).edges[index]? with
    | some ⟨some link, pairIndex⟩ =>
      if masks toSide index = 0#64 then
        forwardPorts brick rest neighbours masks
      else
        let send : Send ι :=
          { side := toSide
            index := index
            target := link
            fromSide := pgFlipSide toSide
            edgeIndex := pairIndex
            mask := masks toSide index }
        let masks := neighbours.marks 0 (setMask masks toSide index 0#64)
        if neighbours.answers 0 < 0 then
          { code := -1, masks := masks, sends := [send] }
        else
          let later := forwardPorts brick rest (neighbours.after 1) masks
          { later with sends := send :: later.sends }
    | _ => forwardPorts brick rest neighbours masks

/-- The ports of `forward_bursts`: those of the output side first. -/
def forwardOrder (brick : Brick ι) (output : Side) : List (Side × Nat) :=
  (List.range (brick.sides output).nb).map (fun index => (output, index)) ++
    (List.range (brick.sides (pgFlipSide output)).nb).map (fun index => (pgFlipSide output, index))

/-- Send the marked packets out, never on the port they came from. -/
def forwardBursts (brick : Brick ι) (output : Side) (source : AddressSource)
    (neighbours : Neighbours) (masks : Side → Nat → BitVec 64) : Forwarding ι :=
  forwardPorts brick (forwardOrder brick output) neighbours
    (setMask masks source.fromSide source.edgeIndex 0#64)

/-- `ENOMEM`. -/
def enomem : Nat :=
  12

/-- The error of a switch that cannot make its table. -/
def macTableNoMem (brick : Brick ι) : PgError :=
  pgErrorNewErrno enomem ("Failed to create hash for switch brick '" ++ brick.name ++ "'")

/-- How a burst into a switch ends. -/
inductive SwitchOutcome (ι : Type) where
  | returned (code : Int) (error : Option PgError) (sends : List (Send ι)) (state : SwitchState)
  | fault
  | outOfRounds

/-- The masks of all ports once the packets of a burst are marked. -/
def markPackets (nb : Side → Nat) (state : SwitchState) (pkts : Nat → Frame)
    (pktsMask filteredMask floodMask : BitVec 64) : Side → Nat → BitVec 64 :=
  let masks := flood nb state.masks floodMask
  let unicastMask := pktsMask &&& ~~~filteredMask &&& ~~~floodMask
  let switched := switchFrom state.table state.sources pkts (lowBits unicastMask) masks 0#64
  flood nb switched.1 switched.2

/-- The part of `switch_burst` after the learning loop. -/
def switchPackets (brick : Brick ι) (state : SwitchState) (fromSide : Side) (edgeIndex : Nat)
    (pkts : Nat → Frame) (pktsMask : BitVec 64) (neighbours : Neighbours)
    (filteredMask floodMask : BitVec 64) : SwitchOutcome ι :=
  let forwarded :=
    forwardBursts brick state.output (state.sources fromSide edgeIndex) neighbours
      (markPackets (fun side => (brick.sides side).nb) state pkts pktsMask filteredMask floodMask)
  .returned forwarded.code none forwarded.sends { state with masks := forwarded.masks }

/-- The state of a switch when its learning loop starts. -/
def startLearning (state : SwitchState) (table : MacTable SourcePointer) (fromSide : Side)
    (edgeIndex : Nat) : SwitchState :=
  { state with
    table := table
    isTableDead := false
    sources := fun side index => if side = fromSide ∧ index = edgeIndex then
        { edgeIndex := edgeIndex, fromSide := fromSide }
      else
        state.sources side index }

/-- `switch_burst`, resumed at its `setjmp` for at most the given rounds. -/
def switchBurst (brick : Brick ι) (fromSide : Side) (edgeIndex : Nat) (pkts : Nat → Frame)
    (pktsMask : BitVec 64) (neighbours : Neighbours) :
    Nat → Malloc → SwitchState → SwitchOutcome ι
  | 0, _, _ => .outOfRounds
  | rounds + 1, malloc, state =>
    let started :=
      if state.isTableDead then pgMacTableInit SourcePointer malloc else (some state.table, malloc)
    match started with
    | (none, _) => .returned (-1) (some (macTableNoMem brick)) [] state
    | (some table, malloc) =>
      let state := startLearning state table fromSide edgeIndex
      match learnFrom (fromSide, edgeIndex) pkts (lowBits pktsMask) malloc table 0#64 0#64
      with
      | .fault => .fault
      | .raised malloc =>
        switchBurst brick fromSide edgeIndex pkts pktsMask neighbours
          rounds malloc { state with isTableDead := true }
      | .learned table filteredMask floodMask =>
        switchPackets brick { state with table := table } fromSide edgeIndex pkts pktsMask
          neighbours filteredMask floodMask

/-- Does an entry of the table name the given port? -/
def cameFrom (sources : Side → Nat → AddressSource) (side : Side) (edgeIndex : Nat) (_ : Mac)
    (source : Option SourcePointer) : Bool :=
  match source with
  | some pointer =>
    (sources pointer.1 pointer.2).fromSide = side &&
      (sources pointer.1 pointer.2).edgeIndex = edgeIndex
  | none => false

/-- Forget what was learnt on a port whose link breaks. -/
def switchUnlinkNotify (state : SwitchState) (side : Side) (edgeIndex : Nat) : SwitchState :=
  if state.isTableDead then
    state
  else
    { state with table := (foreachPtr state.table (cameFrom state.sources side edgeIndex)).2 }

/-- The private state of a new switch, unless its table cannot be made. -/
def switchInit (malloc : Malloc) (output : Side) (brick : Brick ι) :
    Except (Option PgError) SwitchState :=
  match (pgMacTableInit SourcePointer malloc).1 with
  | none => .error (some (macTableNoMem brick))
  | some table =>
    .ok
      { table := table
        isTableDead := false
        output := output
        sources := fun _ _ => { edgeIndex := 0, fromSide := .west }
        masks := fun _ _ => 0#64 }

/-- `pg_switch_new`. -/
def pgSwitchNew (malloc : Malloc) (name : String) (westMax eastMax : Nat) (output : Side) :
    Except PgError (Brick ι × SwitchState) :=
  pgBrickNew
    [{ name := "switch"
       stateSize := 1
       init := fun brick _ => switchInit malloc output brick }] (some "switch") (some
      { name := name
        westMax := westMax
        eastMax := eastMax
        type := .multipole })

end PacketGraph
