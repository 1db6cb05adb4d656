import PacketGraph.Vtep.Encap

namespace PacketGraph

open Bytes BitScan

/-!
# The management operations of a vtep

Making a vtep, attaching a VNI to one of its ports and taking it back when the
link of the port breaks, and the operations on the MAC tables of a port.
Attaching and taking back a VNI sends a membership report out of the output
side.
-/

variable {ι : Type} {version : IpVersion}

section Membership

/-- `enum operation`, whose values depend on the IP version. -/
inductive Operation where
  | subscribe
  | unsubscribe
  deriving Repr, DecidableEq

/-- The type field of a membership report. -/
def Operation.code : IpVersion → Operation → BitVec 8
  | .v4, .subscribe => 0x16#8
  | .v4, .unsubscribe => 0x17#8
  | .v6, .subscribe => 131#8
  | .v6, .unsubscribe => 132#8

/-- A byte of an address, as a number. -/
def ipByte {width : Nat} (ip : BitVec width) (place : Nat) : Nat :=
  (ip.extractLsb' (8 * place) 8).toNat

/-- `%02x`. -/
def hexByte (value : Nat) : String :=
  String.ofList ((if value < 16 then ['0'] else []) ++ Nat.toDigits 16 value)

/-- The text of an address in an error message. -/
def ipToStr : (version : IpVersion) → Ip version → String
  | .v4, ip => ".".intercalate ((List.range 4).map (fun place => toString (ipByte ip place)))
  | .v6, ip =>
    ":".intercalate ((List.range 8).map (fun place =>
          hexByte (ipByte ip (2 * place)) ++ hexByte (ipByte ip (2 * place + 1))))

/-- The complement of the sum of some words. -/
def headerCksum (bytes : List (BitVec 8)) : List (BitVec 8) :=
  bytesOf 2 (~~~(BitVec.ofNat 16 (rawCksum bytes)))

/-- The IGMP message of `multicast4_internal`, with its IP header. -/
def igmpReport (srcIp multicastIp : BitVec 32) (action : Operation) : List (BitVec 8) :=
  let dstAddr :=
    match action with
    | .subscribe => bytesOf 4 multicastIp
    | .unsubscribe => [224#8, 0#8, 0#8, 2#8]
  let start := [0x46#8, 0#8] ++ bytesOf 2 (rteCpuToBe16 32#16) ++ [0#8, 0#8, 0#8, 0#8, 1#8, 2#8]
  let rest := bytesOf 4 srcIp ++ dstAddr ++ [0x94#8, 4#8, 0#8, 0#8]
  let type := [action.code .v4, 0#8]
  let group := bytesOf 4 multicastIp
  start ++ headerCksum (start ++ [0#8, 0#8] ++ rest) ++ rest ++
    type ++ headerCksum (type ++ [0#8, 0#8] ++ group) ++ group

/-- The MLD message of `multicast6_internal`, with its IP header. -/
def mldReport (srcIp multicastIp : BitVec 128) (action : Operation) : List (BitVec 8) :=
  let last :=
    match action with
    | .subscribe => 2#8
    | .unsubscribe => 1#8
  [0x60#8, 0#8, 0#8, 0#8] ++ bytesOf 2 (rteCpuToBe16 68#16) ++ [58#8, 0xFF#8] ++ bytesOf 16 srcIp ++
    ([0xFF#8, 2#8] ++ List.replicate 13 0#8 ++ [last]) ++
    [action.code .v6] ++ List.replicate 11 0#8 ++ bytesOf 16 multicastIp

/-- The message of a membership report, with its IP header. -/
def membershipReport :
    (version : IpVersion) → Ip version → Ip version → Operation → List (BitVec 8)
  | .v4, srcIp, multicastIp, action => igmpReport srcIp multicastIp action
  | .v6, srcIp, multicastIp, action => mldReport srcIp multicastIp action

/-- The bytes of a membership report, with its Ethernet header. -/
def reportBytes (state : VtepState version) (multicastIp : Ip version) (action : Operation)
    : List (BitVec 8) :=
  ethernetBuild version state.mac (pgMulticastGetDstAddr multicastIp) ++
    membershipReport version state.ip multicastIp action

/-- What happens without room for a report; only one version checks it. -/
def noTailroom (version : IpVersion) : VtepM ι version Unit :=
  match version with
  | .v4 => setError (pgErrorNew "rte_pktmbuf_append fail")
  | .v6 => throw (.aborted .fault)

/-- `multicast4_internal` and `multicast6_internal`. -/
def multicastInternal (brick : Brick ι) (multicastIp : Ip version) (action : Operation) :
    VtepM ι version Unit := do
  let world ← get
  if ¬ pgIsMulticastIp multicastIp then
    setError (pgErrorNew ("invalid multicast address " ++ ipToStr version multicastIp))
  else
    modify (fun world => { world with allocs := fun call => world.allocs (1 + call) })
    match world.allocs 0 with
    | none => setError (pgErrorNew "packet allocation failed")
    | some pkt =>
      let bytes := reportBytes world.state multicastIp action
      match rtePktmbufAppend pkt bytes.length with
      | none => noTailroom version
      | some report => do
          let report := { report with buf := store pkt.buf (pkt.dataOff + pkt.dataLen) bytes }
          let _ ← sideForward brick world.state.output
              (pgFlipSide world.state.output) (fun _ => report) 1#64

end Membership

section Vni

/-- The form in which the VNI of a port is kept and of `vx_vni`. -/
def vniField (vni : BitVec 32) : BitVec 32 :=
  rteCpuToBe32 (vni <<< 8)

/-- `g_assert(!pg_mac_table_init(...))`. -/
def assertTable {V : Type} (which : PortTable version V) (i : Nat) : VtepM ι version Unit := do
  let ret ← initTable which i
  if ret < 0 then throw (.aborted .assertion) else pure ()

/-- Write the VNI and the group of a port and make its tables. -/
def fillPort (i : Nat) (vni : BitVec 32) (multicastIp : Ip version) : VtepM ι version Unit := do
  modifyPort i (fun port => { port with vni := vniField vni, multicastIp := multicastIp })
  assertTable macToDst i
  assertTable knownMac i

/-- Report an error and return -1. -/
def failWith (message : String) : VtepM ι version Int := do
  setError (pgErrorNew message)
  pure (-1)

/-- `do_add_vni`. -/
def doAddVni (brick : Brick ι) (i : Nat) (vni : BitVec 32) (multicastIp : Ip version) :
    VtepM ι version Int := do
  let world ← get
  let port := world.state.ports i
  if port.vni ≠ 0#32 then
    failWith "port already attached to a vni"
  else if pgIsMulticastIp port.multicastIp then
    failWith "port alread have a mutlicast IP"
  else
    fillPort i vni multicastIp
    multicastInternal brick multicastIp .subscribe
    pure 0

/-- `is_vni_valid`. -/
def isVniValid (vni : BitVec 32) : Bool :=
  decide (vni.toNat < 16777216)

/-- The first edge of a side that links to a brick. -/
def edgeTo [DecidableEq ι] (brickSide : BrickSide ι) (neighbor : ι) : Option Nat :=
  (List.range brickSide.max).find? (fun i => brickSide.edges[i]?.bind Edge.link = some neighbor)

/-- The broadcast address. -/
def broadcastMac : BitVec 48 :=
  0xFFFFFFFFFFFF#48

/--
`pg_vtep_add_vni`.  The broadcast address is added without an exception
environment of its own.
-/
def pgVtepAddVni [DecidableEq ι] (brick : Brick ι) (neighbor : Option ι) (vni : BitVec 32)
    (multicastIp : Ip version) : VtepM ι version Int :=
  match neighbor with
  | none => failWith "VTEP brick is NULL"
  | some neighbor => do
      let world ← get
      if ¬ isVniValid vni then
        failWith "Invalid VNI"
      else if ¬ pgIsMulticastIp multicastIp then
        failWith "Provided IP is not in the multicast range"
      else
        match edgeTo (brick.sides (pgFlipSide world.state.output)) neighbor with
        | none => failWith "VTEP brick index not found"
        | some i => do
            let ret ← doAddVni brick i vni multicastIp
            if ret < 0 then
              pure (-1)
            else
              doAddMac i broadcastMac
              pure 0

/-- Free one table of a port unless it is flagged as dead. -/
def freeUnlessDead {V : Type} (which : PortTable version V) (flag : BitVec 32) (i : Nat) :
    VtepM ι version Unit := do
  let world ← get
  if (world.state.ports i).isDead flag then pure () else freeTable which i

/-- `do_remove_vni`. -/
def doRemoveVni (brick : Brick ι) (i : Nat) : VtepM ι version Unit := do
  let world ← get
  let multicastIp := (world.state.ports i).multicastIp
  if ¬ pgIsMulticastIp multicastIp then
    pure ()
  else
    multicastInternal brick multicastIp .unsubscribe
    let world ← get
    if world.errp.isSome then
      pure ()
    else
      freeUnlessDead knownMac isKnownMacDead i
      freeUnlessDead macToDst isMacToDstDead i
      modifyPort i (fun _ => VtepPort.zero version)

/-- `vtep_unlink_notify`. -/
def vtepUnlinkNotify (brick : Brick ι) (side : Side) (edgeIndex : Nat) : VtepM ι version Unit := do
  let world ← get
  if side = world.state.output then pure () else doRemoveVni brick edgeIndex

end Vni

section Macs

/-- The first port below `nb` with a VNI. -/
def portOfVni (brick : Brick ι) (state : VtepState version) (vni : BitVec 32) : Option Nat :=
  (List.range (brick.sides (pgFlipSide state.output)).nb).find?
    (fun i => (state.ports i).vni = vniField vni)

/-- `pg_vtep_add_mac`. -/
def pgVtepAddMac (brick : Brick ι) (vni : BitVec 32) (mac : BitVec 48) : VtepM ι version Int := do
  let world ← get
  match portOfVni brick world.state vni with
  | none =>
    failWith ("vni '" ++ toString (vniField vni).toInt ++
        "' not found in brick '" ++ brick.name ++ "'")
  | some i =>
    tryCatch (do
        doAddMac i mac
        pure 0)
      (fun stopped => match stopped with
        | .raised => do
            dropTable macToDst isKnownMacDead i
            setError (noMemory "not enouth space to add mac")
            pure (-1)
        | other => throw other)

/--
The port that a port id stands for, none if the id is too large.  A remainder
by zero or a place before the first port is undefined.
-/
def portOfId (brick : Brick ι) (portId : Int) : VtepM ι version (Option Nat) := do
  let world ← get
  let nbPorts := (brick.sides (pgFlipSide world.state.output)).nb
  if nbPorts = 0 then
    throw (.aborted .fault)
  else if (nbPorts : Int) ≤ portId then
    pure none
  else if portId.tmod nbPorts < 0 then
    throw (.aborted .fault)
  else
    pure (some (portId.tmod nbPorts).toNat)

/-- `pg_vtep_clean_all_mac`. -/
def pgVtepCleanAllMac (brick : Brick ι) (portId : Int) : VtepM ι version Unit := do
  match ← portOfId brick portId with
  | none => pure ()
  | some i => clearTable macToDst i

/-- Has an entry not been used for too long? -/
def agedOut (tick maxLife : BitVec 64) (_ : Mac) (entry : Option (DestAddresses version)) : Bool :=
  match entry with
  | some da => maxLife.ult (tick - da.lifetime)
  | none => false

/-- `pg_vtep_cleanup_mac`. -/
def pgVtepCleanupMac (brick : Brick ι) (portId : Int) : VtepM ι version Unit := do
  match ← portOfId brick portId with
  | none => pure ()
  | some i => do
      let world ← get
      match (world.state.ports i).macToDst with
      | .absent => pure ()
      | .freed => throw .freedTable
      | .live table =>
        modifyPort i (fun port => { port with
              macToDst :=
                .live (foreachElem table (agedOut world.state.vtepTick
                      world.state.maxLifetime)).2 })

end Macs

section Construction

/-- `state->sum`, which only the IPv4 vtep sets. -/
def initSum : (version : IpVersion) → Ip version → Nat
  | .v4, ip => pgIpv4InitCksum ip
  | .v6, _ => 0

/-- `vtep_init`. -/
def vtepInit (output : Side) (ip : Ip version) (mac : BitVec 48) (udpDstPort : BitVec 16)
    (flags : BitVec 32) : VtepState version where
  mac := mac
  output := output
  udpDstPortBe := rteCpuToBe16 udpDstPort
  ports := fun _ => VtepPort.zero version
  packetId := 0#16
  sum := initSum version ip
  flags := flags
  pkts := fun _ => Mbuf.zero
  ip := ip
  maxLifetime := 1000#64
  vtepTick := 0#64

/-- `BRICK_NAME`. -/
def vtepBrickName : IpVersion → String
  | .v4 => "vtep4"
  | .v6 => "vtep6"

/-- `pg_vtep_new`: the output side has one edge. -/
def pgVtepNew (name : String) (max : Nat) (output : Side) (ip : Ip version) (mac : BitVec 48)
    (udpDstPort : BitVec 16) (flags : BitVec 32) : Except PgError (Brick ι × VtepState version) :=
  pgBrickNew
    [{ name := vtepBrickName version
       stateSize := 1
       init := fun _ _ => .ok (vtepInit output ip mac udpDstPort flags) }]
    (some (vtepBrickName version)) (some
      { name := name
        westMax := if output = .west then 1 else max
        eastMax := if output = .west then max else 1
        type := .multipole })

end Construction

end PacketGraph
