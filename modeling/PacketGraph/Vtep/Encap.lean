import PacketGraph.Vtep.Decap

namespace PacketGraph

open BitScan Bytes Function

/-!
# Encapsulation and the burst of a vtep

What a vtep does with a burst from one of its ports: every packet gets an outer
Ethernet, IP, UDP and VXLAN header in front of it and goes out of the output
side.
-/

variable {ι : Type} {version : IpVersion}

/-- Change the packet that is encapsulated, which may be an incoming one. -/
def writeTmp (j : Nat) (pkt : Mbuf) : VtepM ι version Unit :=
  modify (fun world => { world with
      tmp := pkt
      pkts :=
        if world.state.noCopy then update world.pkts j pkt else world.pkts })

/-- Write bytes into the buffer of the packet that is encapsulated. -/
def writeBytes (j : Nat) (address : Nat) (bytes : List (BitVec 8)) : VtepM ι version Unit := do
  let world ← get
  writeTmp j { world.tmp with buf := store world.tmp.buf address bytes }

/-- The packet id that the next IP header takes. -/
def nextPacketId (version : IpVersion) (packetId : BitVec 16) : BitVec 16 :=
  match version with
  | .v4 => packetId + 1#16
  | .v6 => packetId

/-- The bytes of an IP header. -/
def ipHeader :
    (version : IpVersion) → Nat → BitVec 16 → Ip version → Ip version → BitVec 16 → List (BitVec 8)
  | .v4, sum, packetId, srcIp, dstIp, len => ip4Build sum packetId srcIp dstIp len
  | .v6, _, _, srcIp, dstIp, len => ip6Build srcIp dstIp len

/-- `ip_build`: `ip4_build` counts its packets in the state. -/
def ipBuild (dstIp : Ip version) (len : BitVec 16) : VtepM ι version (List (BitVec 8)) := do
  modifyState (fun state => { state with packetId := nextPacketId version state.packetId })
  let world ← get
  pure (ipHeader version world.state.sum world.state.packetId world.state.ip dstIp len)

/-- Write `lifetime` of the entry of a MAC. -/
def touchEntry (i : Nat) (mac : Mac) : VtepM ι version Unit := do
  let table ← readTable macToDst i
  let world ← get
  let part1 := pgMacTablePart1 mac
  let part2 := pgMacTablePart2 mac
  let touch (entries : Nat → Option (DestAddresses version)) :
      Nat → Option (DestAddresses version) :=
    update entries part2 ((entries part2).map
        (fun entry => { entry with lifetime := world.state.vtepTick }))
  modifyPort i (fun port => { port with
        macToDst :=
          .live { table with
              subs :=
                update table.subs part1 ((table.subs part1).map (fun inner =>
                      { inner with entries := inner.entries.map touch })) } })

/-- Stamp the entry of a MAC that is sent to. -/
def useEntry (i : Nat) (mac : Mac) : VtepM ι version Unit := do
  touchEntry i mac
  noteUse i mac

/-- The message of a packet without enough headroom. -/
def noHeadroom (version : IpVersion) (pkt : Mbuf) : PgError :=
  pgErrorNew ("No enough headroom to add VTEP headers on a packet of " ++
      toString (headerLength version) ++ "/" ++ toString pkt.pktLen)

/-- `PKT_TX_UDP_CKSUM`. -/
def pktTxUdpCksum : BitVec 64 :=
  3#64 <<< 52

/-- `PKT_TX_TCP_SEG`. -/
def pktTxTcpSeg : BitVec 64 :=
  1#64 <<< 50

/-- `PKT_TX_IPV4 | PKT_TX_IP_CKSUM | PKT_TX_TCP_CKSUM | PKT_TX_TCP_SEG`. -/
def pktTxTcpOffload : BitVec 64 :=
  (1#64 <<< 55) ||| (1#64 <<< 54) ||| (1#64 <<< 52) ||| pktTxTcpSeg

/-- The metadata that `vtep_header_prepend` sets. -/
def outerMetadata (version : IpVersion) (pkt : Mbuf) : Mbuf :=
  if pkt.udata64.getLsbD 0 then
    { pkt with l2Len := sizeofEtherHdr, l3Len := 20, olFlags := pkt.olFlags ||| pktTxUdpCksum }
  else if pkt.olFlags &&& pktTxTcpSeg ≠ 0#64 then
    { pkt with
      l2Len := headerLength version + sizeofEtherHdr
      olFlags := pkt.olFlags ||| pktTxTcpOffload }
  else
    { pkt with l2Len := headerLength version + sizeofEtherHdr }

/-- Write the outer Ethernet and IP headers in front of a packet. -/
def writeOuter (j base : Nat) (dstMac : BitVec 48) (dstIp : Ip version) (len : BitVec 16)
    : VtepM ι version Unit := do
  let world ← get
  writeBytes j base (ethernetBuild version world.state.mac dstMac)
  let ip ← ipBuild dstIp len
  writeBytes j (base + sizeofEtherHdr) ip

/-- Write the outer UDP header, with a checksum if one is asked for. -/
def writeUdp (j base : Nat) (len seed : BitVec 16) : VtepM ι version Unit := do
  let ip := base + sizeofEtherHdr
  let world ← get
  writeBytes j (udpOf version ip) (udpBuild world.state.udpDstPortBe len seed)
  if world.state.forceUpdIpv6Checksum ∧ version = .v6 then
    let world ← get
    writeBytes j (udpOf version ip + 6) (bytesOf 2
        (ipUdptcpCksum version world.tmp.buf ip (udpOf version ip)))
  else
    pure ()

/-- Remember the source of a frame as known, unless known MACs are unused. -/
def learnSource (i : Nat) (inner : Mbuf) : VtepM ι version Unit := do
  let world ← get
  if world.state.noInnermacCheck then
    pure ()
  else
    doAddMac i (load 6 inner.buf (inner.dataOff + sAddr))

/--
Write the outer Ethernet and IP headers for the destination of a frame: the
one of its entry if there is one, and the multicast group of the port if not.
-/
def selectDestination (i j base : Nat) (inner : Mbuf) (entry : Option (Mac × DestAddresses version))
    (len : BitVec 16) : VtepM ι version Unit :=
  match entry with
  | some (mac, dst) => do
      useEntry i mac
      writeOuter j base dst.mac dst.ip len
  | none => do
      learnSource i inner
      let world ← get
      let multicastIp := (world.state.ports i).multicastIp
      writeOuter j base (pgMulticastGetDstAddr multicastIp) multicastIp len

/--
`vtep_header_prepend`.  The entry of the destination of the packet is given if
the packet goes to a known destination.
-/
def vtepHeaderPrepend (i j : Nat) (entry : Option (Mac × DestAddresses version)) :
    VtepM ι version Int := do
  let world ← get
  let inner := world.tmp
  match rtePktmbufPrepend inner (headerLength version) with
  | none => do
      setError (noHeadroom version inner)
      pure (-1)
  | some pkt => do
      let packetLen := BitVec.ofNat 16 inner.dataLen
      let base := pkt.dataOff
      writeTmp j pkt
      writeBytes j (vxlanOf version (base + sizeofEtherHdr)) (vxlanBuild (world.state.ports i).vni)
      selectDestination i j base inner entry (packetLen + BitVec.ofNat 16 ipOverhead)
      writeUdp j base (packetLen + BitVec.ofNat 16 udpOverhead) inner.addrBytes
      let world ← get
      writeTmp j (outerMetadata version world.tmp)
      pure 0

/--
The entry of the destination of a packet, unless the metadata of the packet
say that it is a multicast packet.
-/
def destinationOf (i j : Nat) : VtepM ι version (Option (Mac × DestAddresses version)) := do
  let world ← get
  if (world.pkts j).dstKey.getLsbD 0 then
    pure none
  else
    let table ← readTable macToDst i
    let mac := macAt (world.pkts j).frame dAddr
    pure ((pgMacTableElemGet table mac).map (fun dst => (mac, dst)))

/-- `vtep_encapsulate`. -/
def vtepEncapsulate (i : Nat) : List Nat → VtepM ι version Int
  | [] => pure 0
  | j :: rest => do
      let entry ← destinationOf i j
      match ← clonePkt j with
      | none => pure (-1)
      | some (tmp, ref) => do
          writeTmp j tmp
          let ret ← vtepHeaderPrepend i j entry
          if ret < 0 then
            freeTmp ref
            pure (-1)
          else
            let world ← get
            pointTo j ref
            writePkt .out j world.tmp
            vtepEncapsulate i rest

/-- The body of `to_vtep` after its `setjmp`. -/
def encapsulateBurst (brick : Brick ι) (fromSide : Side) (edgeIndex : Nat) (pktsMask : BitVec 64)
    : VtepM ι version Int := do
  let fixed ← fixIfDead edgeIndex
  if fixed < 0 then
    pure (-1)
  else
    let world ← get
    if ¬ pgIsMulticastIp (world.state.ports edgeIndex).multicastIp then
      pure 0
    else
      let ret ← vtepEncapsulate edgeIndex (lowBits pktsMask)
      if ret < 0 then
        pure (-1)
      else
        let world ← get
        let ret ← sideForward brick (pgFlipSide fromSide) fromSide world.state.pkts pktsMask
        freeOutPkts pktsMask
        pure ret

/-- `to_vtep`. -/
def toVtep (brick : Brick ι) (fromSide : Side) (edgeIndex : Nat) (pktsMask : BitVec 64)
    : VtepM ι version Int := do
  let world ← get
  if world.state.noInnermacCheck then
    encapsulateBurst brick fromSide edgeIndex pktsMask
  else
    tryCatch (encapsulateBurst brick fromSide edgeIndex pktsMask) (fun stopped => match stopped with
        | .raised => do
            dropTable knownMac (isKnownMacDead ||| hasBeenBroken) edgeIndex
            freeOutPkts pktsMask
            setError (noMemory "not enouth space to add mac")
            pure (-1)
        | other => throw other)

/-- `vtep_burst`. -/
def vtepBurst (brick : Brick ι) (fromSide : Side) (edgeIndex : Nat) (pktsMask : BitVec 64)
    : VtepM ι version Int := do
  modifyState (fun state => { state with vtepTick := state.vtepTick + 1#64 })
  let world ← get
  if fromSide = world.state.output then
    fromVtep brick fromSide pktsMask
  else
    toVtep brick fromSide edgeIndex pktsMask

end PacketGraph
