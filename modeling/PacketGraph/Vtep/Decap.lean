import PacketGraph.Vtep.Basic

namespace PacketGraph

open BitScan Bytes Function

/-!
# Decapsulation

What a vtep does with a burst from its output side: `classify_pkts` keeps the
packets that are VXLAN packets for its UDP port, and the two loops over the
ports, `decapsulate` and `decapsulate_simple`, hand each of them to the port
of its VNI.

The headers are read through pointers into the buffers of the packets.  With
`PG_VTEP_NO_COPY` the outgoing packets are the incoming ones, so that writing
to one writes to the other.
-/

variable {ι : Type} {version : IpVersion}

/-- The array a loop takes its packets from. -/
inductive PktArray where
  | burst
  | out
  deriving Repr, DecidableEq

/-- The packets of an array. -/
def VtepWorld.pktsOf (world : VtepWorld ι version) : PktArray → Nat → Mbuf
  | .burst => world.pkts
  | .out => world.state.pkts

/-- Change a packet of an array, and the incoming packet that it may be. -/
def writePkt (array : PktArray) (j : Nat) (pkt : Mbuf) : VtepM ι version Unit :=
  match array with
  | .burst =>
    modify (fun world => { world with pkts := update world.pkts j pkt })
  | .out =>
    modify (fun world => { world with
        state :=
          { world.state with pkts := update world.state.pkts j pkt }
        pkts :=
          if world.state.noCopy then update world.pkts j pkt else world.pkts })

/-- The start of the UDP header behind an IP header. -/
def udpOf (version : IpVersion) (ip : Nat) : Nat :=
  ip + sizeofIpHdr version

/-- The start of the VXLAN header behind an IP header. -/
def vxlanOf (version : IpVersion) (ip : Nat) : Nat :=
  udpOf version ip + 8

/-- `vx_vni` of the VXLAN header behind an IP header. -/
def vxVni (version : IpVersion) (buf : Memory) (ip : Nat) : BitVec 32 :=
  load 4 buf (vxlanOf version ip + 4)

/-- `udp.dgram_cksum` behind an IP header. -/
def dgramCksum (version : IpVersion) (buf : Memory) (ip : Nat) : BitVec 16 :=
  load 2 buf (udpOf version ip + 6)

/-- The memory that `check_udp_checksum` leaves: zeroed checksum fields. -/
def zeroCksums (version : IpVersion) (buf : Memory) (ip : Nat) : Memory :=
  let buf :=
    match version with
    | .v4 => store buf (ip + 10) [0#8, 0#8]
    | .v6 => buf
  store buf (udpOf version ip + 6) [0#8, 0#8]

/-- The result of `check_udp_checksum`. -/
def checkUdpChecksum (version : IpVersion) (buf : Memory) (ip : Nat) : Bool :=
  ipUdptcpCksum version (zeroCksums version buf ip) ip (udpOf version ip) =
    dgramCksum version buf ip

/-- Is a packet a VXLAN packet for a UDP port? -/
def isVxlan (version : IpVersion) (udpDstPortBe : BitVec 16) (pkt : Mbuf) : Bool :=
  let ip := pgUtilsGetL3 pkt
  pkt.buf (ip + (ipLayout version).proto) = 17#8 &&
    load 2 pkt.buf (udpOf version ip + 2) = udpDstPortBe &&
    load 4 pkt.buf (vxlanOf version ip) = pgVtepBeIFlag

/-- `PKT_TX_UDP_CKSUM | PKT_TX_TCP_CKSUM`. -/
def cksumFlags : BitVec 64 :=
  (3#64 <<< 52) ||| (1#64 <<< 52)

/-- One round of `classify_pkts`: the packet after it, and its verdict. -/
def classifyPkt (version : IpVersion) (udpDstPortBe : BitVec 16) (pkt : Mbuf) : Mbuf × Bool :=
  let ip := pgUtilsGetL3 pkt
  if ¬ isVxlan version udpDstPortBe pkt then
    (pkt, false)
  else if dgramCksum version pkt.buf ip = 0#16 then
    (pkt, true)
  else
    let zeroed := { pkt with buf := zeroCksums version pkt.buf ip }
    if checkUdpChecksum version pkt.buf ip then
      ({ zeroed with olFlags := pkt.olFlags ||| cksumFlags }, true)
    else
      (zeroed, false)

/-- The masks of multicast packets and of all valid packets of a burst. -/
structure Classes where
  multicastMask : BitVec 64
  computedMask : BitVec 64
  deriving Repr, DecidableEq

/-- Is the destination of the outer IP header a multicast address? -/
def isMulticastPkt (version : IpVersion) (pkt : Mbuf) : Bool :=
  pgIsMulticastIp (load (ipSize version) pkt.buf
      (pgUtilsGetL3 pkt + (ipLayout version).dstAddr) : Ip version)

/-- `classify_pkts`. -/
def classifyPkts (udpDstPortBe : BitVec 16) :
    List Nat → Classes → VtepM ι version Classes
  | [], classes => pure classes
  | i :: rest, classes => do
      let world ← get
      let (pkt, accepted) := classifyPkt version udpDstPortBe (world.pkts i)
      writePkt .burst i pkt
      let bit := 1#64 <<< i
      classifyPkts udpDstPortBe rest
        { multicastMask :=
            if accepted && isMulticastPkt version pkt then
              classes.multicastMask ||| bit
            else
              classes.multicastMask
          computedMask :=
            if accepted then classes.computedMask ||| bit else classes.computedMask }

/-- A clone of a packet of the burst, or the packet itself. -/
def clonePkt (j : Nat) : VtepM ι version (Option (Mbuf × PktRef)) := do
  let world ← get
  if world.state.noCopy then
    pure (some (world.pkts j, .given j))
  else
    modify (fun world => { world with
        clones := fun call => world.clones (1 + call)
        made :=
          if (world.clones 0).isSome then world.made + 1 else world.made })
    pure ((world.clones 0).map (fun udata64 =>
          (rtePktmbufClone (world.pkts j) udata64, .clone world.made)))

/-- Let a place of `state->pkts` point to an mbuf. -/
def pointTo (j : Nat) (ref : PktRef) : VtepM ι version Unit :=
  modify (fun world => { world with refs := update world.refs j ref })

/-- `rte_pktmbuf_free`, unless the packets are those of the caller. -/
def freeTmp (ref : PktRef) : VtepM ι version Unit :=
  modify (fun world => if world.state.noCopy then
      world
    else
      { world with freed := world.freed ++ [ref] })

/--
`pg_packets_free` on `state->pkts`, unless the packets are those of the caller.
-/
def freeOutPkts (pktsMask : BitVec 64) : VtepM ι version Unit :=
  modify (fun world => if world.state.noCopy then
      world
    else
      { world with freed := world.freed ++ (lowBits pktsMask).map world.refs })

/-- `check_and_clone_vni_pkts`. -/
def checkAndCloneVniPkts (hdrs : Nat → Nat) (i : Nat) :
    List Nat → BitVec 64 → VtepM ι version (BitVec 64)
  | [], vniMask => pure vniMask
  | j :: rest, vniMask => do
      let world ← get
      if vxVni version (world.pkts j).buf (hdrs j) = (world.state.ports i).vni then
        match ← clonePkt j with
        | none => pure 0#64
        | some (tmp, ref) => do
            pointTo j ref
            writePkt .out j tmp
            match rtePktmbufAdj tmp (tmp.l2Len + sizeofHeaders version) with
            | none => pure 0#64
            | some adjusted => do
                writePkt .out j adjusted
                checkAndCloneVniPkts hdrs i rest (vniMask ||| (1#64 <<< j))
      else
        checkAndCloneVniPkts hdrs i rest vniMask

/-- `check_vni_pkts`, which ignores that a packet may be too short. -/
def checkVniPkts (hdrs : Nat → Nat) (i : Nat) :
    List Nat → BitVec 64 → VtepM ι version (BitVec 64)
  | [], vniMask => pure vniMask
  | j :: rest, vniMask => do
      let world ← get
      let pkt := world.pkts j
      if vxVni version pkt.buf (hdrs j) = (world.state.ports i).vni then
        writePkt .burst j ((rtePktmbufAdj pkt (pkt.l2Len + sizeofHeaders version)).getD pkt)
        checkVniPkts hdrs i rest (vniMask ||| (1#64 <<< j))
      else
        checkVniPkts hdrs i rest vniMask

/-- The packets whose destination is in a table of known MACs. -/
def hittedFrom (known : MacTable Unit) (pkts : Nat → Mbuf) :
    List Nat → BitVec 64 → BitVec 64
  | [], hittedMask => hittedMask
  | j :: rest, hittedMask =>
    match pgMacTablePtrGet known (macAt (pkts j).frame dAddr) with
    | some _ => hittedFrom known pkts rest (hittedMask ||| (1#64 <<< j))
    | none => hittedFrom known pkts rest hittedMask

/-- The packets that `decapsulate` forwards among those of a VNI. -/
def hittedMask (i : Nat) (vniMask : BitVec 64) : VtepM ι version (BitVec 64) := do
  let world ← get
  if world.state.noInnermacCheck then
    pure vniMask
  else
    let known ← readTable knownMac i
    pure (hittedFrom known world.state.pkts (lowBits vniMask) 0#64)

/--
`add_dst_iner_macs`: remember where the inner sources are reached.  The mask of
multicast packets it is given is overwritten before it is used.
-/
def addDstInerMacs (array : PktArray) (eths hdrs : Nat → Nat) (i : Nat) :
    List Nat → VtepM ι version Unit
  | [] => pure ()
  | j :: rest => do
      let world ← get
      let pkt := world.pktsOf array j
      let mac := (load 6 pkt.buf (pkt.dataOff + sAddr)).setWidth 64
      setInTable macToDst i mac
        { mac := load 6 pkt.buf (eths j)
          ip := load (ipSize version) pkt.buf (hdrs j + (ipLayout version).srcAddr)
          lifetime := world.state.vtepTick }
      noteUse i mac
      addDstInerMacs array eths hdrs i rest

/-- One round of `restore_metadata`. -/
def restorePkt (pkt : Mbuf) : Mbuf :=
  let pkt := pgUtilsGuessL2 pkt
  if pgUtilsGetEtherType pkt = beEtherTypeIpv4 then
    { pkt with l3Len := 20 }
  else if pgUtilsGetEtherType pkt = beEtherTypeIpv6 then
    { pkt with l3Len := pgUtilsGetIpv6L3Len pkt % 512 }
  else
    pkt

/-- `restore_metadata`. -/
def restoreMetadata (array : PktArray) : List Nat → VtepM ι version Unit
  | [] => pure ()
  | j :: rest => do
      let world ← get
      writePkt array j (restorePkt (world.pktsOf array j))
      restoreMetadata array rest

/--
The call on the brick behind a port.  It is handed the index of the port, not
that of the paired edge.
-/
def portCall (brick : Brick ι) (side fromSide : Side) (i : Nat) (pkts : Nat → Mbuf)
    (pktsMask : BitVec 64) : Option (Delivery ι) :=
  (edgeSend brick side i fromSide pktsMask).map
    (fun send => { send with edgeIndex := i, pkts := pkts })

/-- Learn the sources of some packets and hand them to the brick of a port. -/
def deliverOn (brick : Brick ι) (fromSide : Side) (array : PktArray) (eths hdrs : Nat → Nat)
    (i : Nat) (pktsMask : BitVec 64) : VtepM ι version Int := do
  addDstInerMacs array eths hdrs i (lowBits pktsMask)
  restoreMetadata array (lowBits pktsMask)
  let world ← get
  burstTo (portCall brick (pgFlipSide fromSide) fromSide i (world.pktsOf array) pktsMask)

/-- The loop of `decapsulate` over some ports. -/
def decapsulateFrom (brick : Brick ι) (fromSide : Side) (eths hdrs : Nat → Nat) :
    List Nat → BitVec 64 → VtepM ι version Int
  | [], _ => pure 0
  | i :: rest, pktsMask => do
      if pktsMask = 0#64 then
        pure 0
      else
        let fixed ← fixIfDead i
        if fixed < 0 then
          pure (-1)
        else
          let vniMask ← checkAndCloneVniPkts hdrs i (lowBits pktsMask) 0#64
          if vniMask = 0#64 then
            decapsulateFrom brick fromSide eths hdrs rest pktsMask
          else
            let hitted ← hittedMask i vniMask
            if hitted = 0#64 then
              freeOutPkts vniMask
              decapsulateFrom brick fromSide eths hdrs rest (pktsMask ^^^ vniMask)
            else
              let ret ← deliverOn brick fromSide .out eths hdrs i hitted
              -- the clones are freed whether the neighbour failed or not
              freeOutPkts vniMask
              if ret < 0 then
                pure (-1)
              else
                decapsulateFrom brick fromSide eths hdrs rest (pktsMask ^^^ vniMask)

/-- The loop of `decapsulate_simple` over some ports. -/
def decapsulateSimpleFrom (brick : Brick ι) (fromSide : Side) (eths hdrs : Nat → Nat) :
    List Nat → BitVec 64 → VtepM ι version Int
  | [], _ => pure 0
  | i :: rest, pktsMask => do
      if pktsMask = 0#64 then
        pure 0
      else
        let fixed ← fixIfDead i
        if fixed < 0 then
          pure (-1)
        else
          let vniMask ← checkVniPkts hdrs i (lowBits pktsMask) 0#64
          if vniMask = 0#64 then
            decapsulateSimpleFrom brick fromSide eths hdrs rest pktsMask
          else
            let ret ← deliverOn brick fromSide .burst eths hdrs i vniMask
            if ret < 0 then
              pure (-1)
            else
              decapsulateSimpleFrom brick fromSide eths hdrs rest (pktsMask ^^^ vniMask)

/-- Classify the packets of a burst and run a loop over the ports on them. -/
def classified {Value : Type} (brick : Brick ι) (fromSide : Side) (pktsMask : BitVec 64)
    (loop : (eths hdrs : Nat → Nat) → List Nat → BitVec 64 → VtepM ι version Value) :
    VtepM ι version Value := do
  let world ← get
  let eths := fun j => (world.pkts j).dataOff + sAddr
  let hdrs := fun j => pgUtilsGetL3 (world.pkts j)
  let classes ← classifyPkts world.state.udpDstPortBe (lowBits pktsMask)
      { multicastMask := 0#64, computedMask := 0#64 }
  loop eths hdrs (List.range (brick.sides (pgFlipSide fromSide)).nb) classes.computedMask

/-- `decapsulate`. -/
def decapsulate (brick : Brick ι) (fromSide : Side) (pktsMask : BitVec 64) : VtepM ι version Int :=
  classified brick fromSide pktsMask (decapsulateFrom brick fromSide)

/-- `decapsulate_simple`. -/
def decapsulateSimple (brick : Brick ι) (fromSide : Side) (pktsMask : BitVec 64) :
    VtepM ι version Int :=
  classified brick fromSide pktsMask (decapsulateSimpleFrom brick fromSide)

/-- Drop the `mac_to_dst` tables of some ports, as after a failed allocation. -/
def dropMacToDst : List Nat → VtepM ι version Unit
  | [] => pure ()
  | i :: rest => do
      dropTable macToDst (isMacToDstDead ||| hasBeenBroken) i
      dropMacToDst rest

/-- `from_vtep`. -/
def fromVtep (brick : Brick ι) (fromSide : Side) (pktsMask : BitVec 64) : VtepM ι version Int := do
  let world ← get
  tryCatch (if world.state.flags = pgVtepAllOpti then
      decapsulateSimple brick fromSide pktsMask
    else
      decapsulate brick fromSide pktsMask)
    (fun stopped => match stopped with
      | .raised => do
          dropMacToDst (List.range (brick.sides (pgFlipSide fromSide)).nb)
          setError (noMemory "not enouth space to add mac")
          pure (-1)
      | other => throw other)

end PacketGraph
