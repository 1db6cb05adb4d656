import PacketGraph.Flow.Bricks
import PacketGraph.Packet.Headers
import PacketGraph.MacTable.Iterator

namespace PacketGraph

open Bytes BitScan

/-!
# The state of a vtep and its MAC tables

Every port of a vtep has two MAC tables that are made when a VNI is attached
to the port.  The memory of a port starts zeroed: an absent table reads as an
empty one but cannot be written to.  A table that was freed must not be used
at all, and stops the program here when it is.

Operations are programs over a world that holds the state, the packets of the
burst that is handled, and what the environment will answer: which allocations
succeed and what the neighbours return.  A failed allocation of a table entry
stops the program with `raised`, which models the jump to the environment of
the last `setjmp`.
-/

variable {ι V : Type} {version : IpVersion}

/-- `struct dest_addresses`. -/
structure DestAddresses (version : IpVersion) where
  mac : BitVec 48
  ip : Ip version
  lifetime : BitVec 64
  deriving DecidableEq

/-- A MAC table in a zeroed port, in use, or given back. -/
inductive TableSlot (V : Type) where
  | absent
  | live (table : MacTable V)
  | freed

/-- `struct vtep_port`. -/
structure VtepPort (version : IpVersion) where
  vni : BitVec 32
  multicastIp : Ip version
  macToDst : TableSlot (DestAddresses version)
  knownMac : TableSlot Unit
  deadTables : BitVec 32

/-- A port of zeroed memory. -/
def VtepPort.zero (version : IpVersion) : VtepPort version where
  vni := 0#32
  multicastIp := 0#_
  macToDst := .absent
  knownMac := .absent
  deadTables := 0#32

/-- `struct vtep_state`, without the brick it starts with. -/
structure VtepState (version : IpVersion) where
  mac : BitVec 48
  output : Side
  udpDstPortBe : BitVec 16
  ports : Nat → VtepPort version
  packetId : BitVec 16
  sum : Nat
  flags : BitVec 32
  pkts : Nat → Mbuf
  ip : Ip version
  maxLifetime : BitVec 64
  vtepTick : BitVec 64

/-- `PG_VTEP_NO_COPY`. -/
def VtepState.noCopy (state : VtepState version) : Bool :=
  state.flags.getLsbD 0

/-- `PG_VTEP_NO_INNERMAC_CHECK`. -/
def VtepState.noInnermacCheck (state : VtepState version) : Bool :=
  state.flags.getLsbD 1

/-- `PG_VTEP_FORCE_UPD_IPV6_CHECKSUM`. -/
def VtepState.forceUpdIpv6Checksum (state : VtepState version) : Bool :=
  state.flags.getLsbD 2

/-- `PG_VTEP_ALL_OPTI`. -/
def pgVtepAllOpti : BitVec 32 :=
  3#32

/-- `IS_MAC_TO_DST_DEAD`. -/
def isMacToDstDead : BitVec 32 :=
  1#32

/-- `IS_KNOWN_MAC_DEAD`. -/
def isKnownMacDead : BitVec 32 :=
  2#32

/-- `HAS_BEEN_BROKEN`. -/
def hasBeenBroken : BitVec 32 :=
  4#32

/-- Is a flag set in `dead_tables`? -/
def VtepPort.isDead (port : VtepPort version) (flag : BitVec 32) : Bool :=
  port.deadTables &&& flag ≠ 0#32

/-- `are_mac_tables_dead`. -/
def areMacTablesDead (port : VtepPort version) : Bool :=
  port.isDead (isMacToDstDead ||| isKnownMacDead)

/-- Why an operation stops before it returns. -/
inductive VtepStop where
  | raised
  | freedTable
  | aborted (reason : Abort)
  deriving Repr, DecidableEq

/--
The mbuf that a pointer points to: the one that a place of `state->pkts` still
pointed to when the operation started, a packet of the burst, or a clone made
by the operation.
-/
inductive PktRef where
  | left (place : Nat)
  | given (place : Nat)
  | clone (serial : Nat)
  deriving Repr, DecidableEq

/-- The state of a vtep, the burst it handles, and its environment. -/
structure VtepWorld (ι : Type) (version : IpVersion) where
  state : VtepState version
  pkts : Nat → Mbuf
  /-- The packet that `vtep_header_prepend` works on. -/
  tmp : Mbuf
  errp : Option PgError
  malloc : Malloc
  /-- The results of `rte_pktmbuf_clone`, with the user data of the clone. -/
  clones : Nat → Option (BitVec 64)
  /-- The results of `rte_pktmbuf_alloc`. -/
  allocs : Nat → Option Mbuf
  answers : Answers
  /-- The errors that the neighbours set, by the call. -/
  errors : Nat → Option PgError
  /--
  The places of `state->pkts` that a call leaves overwritten, which are some if
  the neighbour bursts back into the vtep before it returns.
  -/
  back : Nat → Nat → Bool
  deliveries : List (Delivery ι)
  /-- Where the pointers of `state->pkts` point. -/
  refs : Nat → PktRef
  /-- How many clones were made. -/
  made : Nat
  /-- The mbufs that were freed, in this order. -/
  freed : List PktRef
  /-- The ports and MACs that were learnt or sent to, the last ones first. -/
  used : List (Nat × Mac)

/-- An operation of a vtep. -/
abbrev VtepM (ι : Type) (version : IpVersion) (α : Type) :=
  EStateM VtepStop (VtepWorld ι version) α

/-- Set `*errp`. -/
def setError (error : PgError) : VtepM ι version Unit :=
  modify (fun world => { world with errp := some error })

/-- Change the private state. -/
def modifyState (change : VtepState version → VtepState version) : VtepM ι version Unit :=
  modify (fun world => { world with state := change world.state })

/-- Change one port. -/
def modifyPort (i : Nat) (change : VtepPort version → VtepPort version) : VtepM ι version Unit :=
  modifyState (fun state =>
      { state with ports := Function.update state.ports i (change (state.ports i)) })

/-- One of the two tables of a port. -/
structure PortTable (version : IpVersion) (V : Type) where
  slot : VtepPort version → TableSlot V
  put : VtepPort version → TableSlot V → VtepPort version

/-- `mac_to_dst`. -/
def macToDst : PortTable version (DestAddresses version) where
  slot := VtepPort.macToDst
  put := fun port slot => { port with macToDst := slot }

/-- `known_mac`. -/
def knownMac : PortTable version Unit where
  slot := VtepPort.knownMac
  put := fun port slot => { port with knownMac := slot }

/-- The table of zeroed memory. -/
def MacTable.zero (V : Type) : MacTable V where
  mask := fun _ => 0#64
  subs := fun _ => none

/-- The table of a port, to read it. -/
def readTable (which : PortTable version V) (i : Nat) : VtepM ι version (MacTable V) := do
  let world ← get
  match which.slot (world.state.ports i) with
  | .absent => pure (MacTable.zero V)
  | .live table => pure table
  | .freed => throw .freedTable

/-- `pg_mac_table_elem_set` and `pg_mac_table_ptr_set` on the table of a port. -/
def setInTable (which : PortTable version V) (i : Nat) (mac : Mac) (entry : V) :
    VtepM ι version Unit := do
  let world ← get
  match which.slot (world.state.ports i) with
  | .absent => throw (.aborted .fault)
  | .freed => throw .freedTable
  | .live table =>
    let (outcome, malloc) := macTableSet world.malloc table mac entry
    modify (fun world => { world with malloc := malloc })
    match outcome with
    | .stored table => modifyPort i (fun port => which.put port (.live table))
    | .raised table => do
        modifyPort i (fun port => which.put port (.live table))
        throw .raised
    | .fault => throw (.aborted .fault)

/--
`pg_mac_table_free` on the table of a port, which goes through the sub-tables
as `pg_mac_table_clear` does.
-/
def freeTable (which : PortTable version V) (i : Nat) : VtepM ι version Unit := do
  let world ← get
  match which.slot (world.state.ports i) with
  | .absent => pure ()
  | .freed => throw .freedTable
  | .live table =>
    match pgMacTableClear table with
    | .error reason => throw (.aborted reason)
    | .ok _ => modifyPort i (fun port => which.put port .freed)

/--
What the exception handlers do to a port: they overwrite its flags and free
one of its tables.
-/
def dropTable (which : PortTable version V) (deadTables : BitVec 32) (i : Nat) :
    VtepM ι version Unit := do
  modifyPort i (fun port => { port with deadTables := deadTables })
  freeTable which i

/-- A table whose pointer was overwritten by `NULL`. -/
def TableSlot.lost : TableSlot V → TableSlot V
  | .absent => .absent
  | .live _ => .freed
  | .freed => .freed

/-- `pg_mac_table_init` on the table of a port. -/
def initTable (which : PortTable version V) (i : Nat) : VtepM ι version Int := do
  let world ← get
  let (made, malloc) := pgMacTableInit V world.malloc
  modify (fun world => { world with malloc := malloc })
  match made with
  | none => do
      modifyPort i (fun port => which.put port (which.slot port).lost)
      pure (-1)
  | some table => do
      modifyPort i (fun port => which.put port (.live table))
      pure 0

/-- `pg_mac_table_clear` on the table of a port. -/
def clearTable (which : PortTable version V) (i : Nat) : VtepM ι version Unit := do
  let world ← get
  match which.slot (world.state.ports i) with
  | .absent => pure ()
  | .freed => throw .freedTable
  | .live table =>
    match pgMacTableClear table with
    | .error reason => throw (.aborted reason)
    | .ok table => modifyPort i (fun port => which.put port (.live table))

/-- Remember that the entry of a MAC was learnt or sent to; the code does not. -/
def noteUse (i : Nat) (mac : Mac) : VtepM ι version Unit :=
  modify (fun world => { world with used := (i, mac) :: world.used })

/-- The world once the brick behind an edge has returned from a burst. -/
def VtepWorld.called (world : VtepWorld ι version) (delivery : Delivery ι) :
    VtepWorld ι version :=
  { world with
    answers := world.answers.after 1
    errors := fun call => world.errors (1 + call)
    errp := world.errors 0 <|> world.errp
    deliveries := world.deliveries ++ [delivery]
    refs := fun place => if world.back 0 place then .left place else world.refs place
    back := fun call => world.back (1 + call) }

/-- Hand packets to the brick behind an edge; a burst to no brick returns 0. -/
def burstTo (call : Option (Delivery ι)) : VtepM ι version Int :=
  match call with
  | none => pure 0
  | some delivery => do
      let world ← get
      modify (fun world => world.called delivery)
      pure (world.answers 0)

/-- `pg_brick_side_forward` on some of the edges of a side. -/
def forwardEdges (brick : Brick ι) (side fromSide : Side) (pkts : Nat → Mbuf) (pktsMask : BitVec 64)
    :
    List Nat → VtepM ι version Int
  | [] => pure 0
  | index :: rest => do
      let ret ← burstTo ((edgeSend brick side index fromSide pktsMask).map
            (fun send => { send with pkts := pkts }))
      if ret < 0 then pure (-1) else forwardEdges brick side fromSide pkts pktsMask rest

/-- `pg_brick_side_forward`, as a vtep calls it. -/
def sideForward (brick : Brick ι) (side fromSide : Side) (pkts : Nat → Mbuf) (pktsMask : BitVec 64)
    : VtepM ι version Int :=
  forwardEdges brick side fromSide pkts pktsMask (List.range (brick.sides side).nb)

/-- `ENOMEM` with a message. -/
def noMemory (message : String) : PgError :=
  pgErrorNewErrno 12 message

/-- Make one table again if it is flagged as dead. -/
def fixTable (which : PortTable version V) (flag : BitVec 32) (i : Nat) : VtepM ι version Int := do
  let world ← get
  if (world.state.ports i).isDead flag then
    let ret ← initTable which i
    if ret < 0 then
      setError (noMemory "out of memory")
      pure (-1)
    else
      modifyPort i (fun port => { port with deadTables := port.deadTables ^^^ flag })
      pure 0
  else
    pure 0

/-- `try_fix_tables`. -/
def tryFixTables (i : Nat) : VtepM ι version Int := do
  let ret ← fixTable macToDst isMacToDstDead i
  if ret < 0 then pure (-1) else fixTable knownMac isKnownMacDead i

/-- Fix the tables of a port if one of them is dead. -/
def fixIfDead (i : Nat) : VtepM ι version Int := do
  let world ← get
  if areMacTablesDead (world.state.ports i) then tryFixTables i else pure 0

/-- `do_add_mac`. -/
def doAddMac (i : Nat) (mac : BitVec 48) : VtepM ι version Unit :=
  setInTable knownMac i (mac.setWidth 64) ()

end PacketGraph
