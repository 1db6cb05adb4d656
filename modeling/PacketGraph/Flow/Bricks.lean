import PacketGraph.Flow.Forward
import PacketGraph.Packet.Mbuf
import PacketGraph.Lib.Checksum

namespace PacketGraph

open Bytes BitScan InternetChecksum

/-!
# The udp filter, antispoof, pmtud and queue bricks

These bricks look into the packets of a burst before they forward it.  Packets
are seen through the memory of their buffers, so a check that reads past the
end of a packet sees the bytes that follow it.
-/

variable {ι : Type}

section UdpFilter

/-- `struct pg_udp_filter_info`, with its ports in network order. -/
structure UdpFilterInfo where
  udpSrcPort : BitVec 16
  udpDstPort : BitVec 16
  flag : BitVec 32
  deriving Repr, DecidableEq

/-- The private state of a udp filter. -/
structure UdpFilterState where
  toSide : Side
  filters : List UdpFilterInfo
  deriving Repr, DecidableEq

/-- Is this an IPv4 UDP packet? -/
def isIpv4Udp (pkt : Mbuf) : Bool :=
  load 2 pkt.buf (pkt.dataOff + 12) = beEtherTypeIpv4 && pkt.frame 23 = 17#8

/-- Does a filter match the ports of a packet? -/
def UdpFilterInfo.hits (filter : UdpFilterInfo) (pkt : Mbuf) : Bool :=
  (filter.flag.getLsbD 0 && load 2 pkt.buf (pkt.dataOff + 36) = filter.udpDstPort) ||
    (filter.flag.getLsbD 1 && load 2 pkt.buf (pkt.dataOff + 34) = filter.udpSrcPort)

/-- Mark one more packet for a port. -/
def markPort (portMask : Nat → BitVec 64) (port i : Nat) : Nat → BitVec 64 :=
  Function.update portMask port (portMask port ||| (1#64 <<< i))

/-- The loop of `udp_filter_burst` over the packets of a mask. -/
def udpFilterFrom (filters : List UdpFilterInfo) (pkts : Nat → Mbuf) :
    List Nat → (Nat → BitVec 64) → Nat → BitVec 64
  | [], portMask => portMask
  | i :: rest, portMask =>
    let portMask :=
      if isIpv4Udp (pkts i) then portMask else markPort portMask 0 i
    match filters.findIdx? (fun filter => filter.hits (pkts i)) with
    | some j => udpFilterFrom filters pkts rest (markPort portMask (j + 1) i)
    | none => udpFilterFrom filters pkts rest (markPort portMask 0 i)

/-- `udp_filter_burst`. -/
def udpFilterBurst (brick : Brick ι) (state : UdpFilterState) (fromSide : Side) (pkts : Nat → Mbuf)
    (pktsMask : BitVec 64) (answers : Answers) : Sent ι :=
  if fromSide = state.toSide then
    pgBrickSideForward brick (pgFlipSide fromSide) fromSide pktsMask answers
  else
    let portMask := udpFilterFrom state.filters pkts (lowBits pktsMask) (fun _ => 0#64)
    burstEach id ((List.range (state.filters.length + 1)).map (fun i =>
          edgeSend brick (pgFlipSide fromSide) i fromSide (portMask i)))
      answers

end UdpFilter

section Antispoof

/-- The private state of an antispoof brick. -/
structure AntispoofState where
  outside : Side
  mac : BitVec 48
  arpEnabled : Bool
  arps : List (BitVec 32)
  ndpEnabled : Bool
  ndps : List (BitVec 128)

/--
Does an ARP packet match the packet that `pg_antispoof_arp_add` builds for one
of the addresses?
-/
def antispoofArp (state : AntispoofState) (pkt : Mbuf) : Bool :=
  let a := pgUtilsGetL3 pkt
  state.arps.any (fun ip => slice pkt.buf a 6 = [0x00#8, 0x01#8, 0x08#8, 0x00#8, 0x06#8, 0x04#8] &&
        load 6 pkt.buf (a + 8) = state.mac && load 4 pkt.buf (a + 14) = ip)

/-- Is an IPv6 packet no neighbor advertisement, or an allowed one? -/
def antispoofNdp (state : AntispoofState) (pkt : Mbuf) : Bool :=
  match pgUtilsGetIpv6L4 pkt with
  | none => false
  | some (ipv6Type, na) =>
    if ipv6Type ≠ 0x3A#8 then
      true
    else if pkt.buf na ≠ 0x88#8 then
      true
    else
      state.ndps.any (fun ip =>
            load 16 pkt.buf (pgUtilsGetL3 pkt + 8) = ip && load 16 pkt.buf (na + 8) = ip) &&
        pkt.buf (na + 24) = 2#8 &&
        pkt.buf (na + 25) = 1#8 &&
        load 6 pkt.buf (na + 26) = state.mac

/-- Does a packet from the inside pass? -/
def antispoofPasses (state : AntispoofState) (pkt : Mbuf) : Bool :=
  let etype := pgUtilsGetEtherType pkt
  if load 6 pkt.buf (pkt.dataOff + 6) ≠ state.mac then
    false
  else if etype = 0x3580#16 then
    false
  else if state.arpEnabled ∧ etype = 0x0608#16 ∧ ¬ antispoofArp state pkt then
    false
  else if state.ndpEnabled ∧ etype = beEtherTypeIpv6 ∧ ¬ antispoofNdp state pkt then false else true

/-- The loop of `antispoof_burst` over the packets of a mask. -/
def antispoofFrom (state : AntispoofState) (pkts : Nat → Mbuf) :
    List Nat → BitVec 64 → BitVec 64
  | [], pktsMask => pktsMask
  | i :: rest, pktsMask =>
    if antispoofPasses state (pkts i) then
      antispoofFrom state pkts rest pktsMask
    else
      antispoofFrom state pkts rest (pktsMask &&& ~~~(1#64 <<< i))

/-- `antispoof_burst`. -/
def antispoofBurst (brick : Brick ι) (state : AntispoofState) (fromSide : Side) (pkts : Nat → Mbuf)
    (pktsMask : BitVec 64) (answers : Answers) : Sent ι :=
  let forward (pktsMask : BitVec 64) : Sent ι :=
    burstOnce (edgeSend brick (pgFlipSide fromSide) 0 fromSide pktsMask) answers
  if state.outside = fromSide then
    forward pktsMask
  else
    let pktsMask := antispoofFrom state pkts (lowBits pktsMask) pktsMask
    if pktsMask = 0#64 then { code := 0, sends := [] } else forward pktsMask

end Antispoof

section Pmtud

/-- The private state of a pmtud brick. -/
structure PmtudState where
  output : Side
  ethMtuSize : Nat
  icmp : Mbuf

/-- `rte_raw_cksum` on a stretch of memory. -/
def rteRawCksum (buf : Memory) (address len : Nat) : BitVec 16 :=
  BitVec.ofNat 16 (fold (wordSum (slice buf address len)))

/-- `rte_ipv4_cksum` on a header without options. -/
def rteIpv4Cksum (buf : Memory) (address : Nat) : BitVec 16 :=
  let cksum := rteRawCksum buf address 20
  if cksum = 0xFFFF#16 then cksum else ~~~cksum

/-- Is this an IPv4 packet that may not be fragmented and is too long? -/
def pmtudTooBig (state : PmtudState) (pkt : Mbuf) : Bool :=
  pgUtilsGetEtherType pkt = beEtherTypeIpv4 && (pkt.buf (pgUtilsGetL3 pkt + 6)).getLsbD 6 &&
    decide (state.ethMtuSize < pkt.pktLen)

/-- The reply of a pmtud brick to a packet, written over its last one. -/
def pmtudReply (icmp pkt : Mbuf) : Mbuf :=
  let ip := pgUtilsGetL3 pkt
  let base := icmp.dataOff
  -- Ethernet and IP addresses change places.
  let buf := store icmp.buf (base + 6) (slice pkt.buf pkt.dataOff 6)
  let buf := store buf base (slice pkt.buf (pkt.dataOff + 6) 6)
  let buf := store buf (base + 26) (slice pkt.buf (ip + 16) 4)
  let buf := store buf (base + 30) (slice pkt.buf (ip + 12) 4)
  let buf := store buf (base + 24) (bytesOf 2 0#16)
  let buf := store buf (base + 24) (bytesOf 2 (rteIpv4Cksum buf (base + 14)))
  -- The quoted datagram follows the eight bytes of the ICMP header.
  let buf := store buf (base + 42) (slice pkt.buf ip 20)
  let buf := store buf (base + 62) (slice pkt.buf (ip + 20) 8)
  let buf := store buf (base + 36) (bytesOf 2 0#16)
  let buf := store buf (base + 36) (bytesOf 2 (~~~(rteRawCksum buf (base + 34) 36)))
  { icmp with buf := buf }

/-- A call of `pg_brick_burst` with the packets it hands over. -/
structure Delivery (ι : Type) extends Send ι where
  pkts : Nat → Mbuf

/-- What a pmtud brick sends, with the state it is left in. -/
structure PmtudSent (ι : Type) where
  code : Int
  deliveries : List (Delivery ι)
  state : PmtudState

/-- The loop of `pmtud_burst` over packets, and the forwarding after it. -/
def pmtudFrom (brick : Brick ι) (fromSide : Side) (pkts : Nat → Mbuf) :
    List Nat → BitVec 64 → Answers → PmtudState → PmtudSent ι
  | [], pktsMask, answers, state =>
    if pktsMask = 0#64 then
      { code := 0, deliveries := [], state := state }
    else
      let sent := burstOnce (edgeSend brick (pgFlipSide fromSide) 0 fromSide pktsMask) answers
      { code := sent.code
        deliveries := sent.sends.map (fun send => { send with pkts := pkts })
        state := state }
  | i :: rest, pktsMask, answers, state =>
    if pmtudTooBig state (pkts i) then
      let state := { state with icmp := pmtudReply state.icmp (pkts i) }
      let pktsMask := pktsMask ^^^ (1#64 <<< i)
      match edgeSend brick fromSide 0 (pgFlipSide fromSide) 1#64 with
      | none => pmtudFrom brick fromSide pkts rest pktsMask answers state
      | some send =>
        let reply := { send with pkts := fun _ => state.icmp }
        if answers 0 < 0 then
          { code := -1, deliveries := [reply], state := state }
        else
          let later := pmtudFrom brick fromSide pkts rest pktsMask (answers.after 1) state
          { later with deliveries := reply :: later.deliveries }
    else
      pmtudFrom brick fromSide pkts rest pktsMask answers state

/-- `pmtud_burst`. -/
def pmtudBurst (brick : Brick ι) (state : PmtudState) (fromSide : Side) (pkts : Nat → Mbuf)
    (pktsMask : BitVec 64) (answers : Answers) : PmtudSent ι :=
  if state.output = fromSide then
    pmtudFrom brick fromSide pkts (lowBits pktsMask) pktsMask answers state
  else
    pmtudFrom brick fromSide pkts [] pktsMask answers state

end Pmtud

section Queue

/-- `struct pg_queue_burst`: an array of packets and its mask. -/
structure QueueBurst (π : Type) where
  pkts : π
  mask : BitVec 64
  deriving Repr, DecidableEq

/-- The private state of a queue, its oldest burst first. -/
structure QueueState (ι π : Type) where
  rxMaxSize : BitVec 32
  rx : List (QueueBurst π)
  friend : Option ι
  deriving Repr, DecidableEq

variable {π : Type}

/-- `queue_burst`: a full queue throws its oldest burst away. -/
def queueBurst (state : QueueState ι π) (pkts : π) (pktsMask : BitVec 64) : QueueState ι π :=
  let rx :=
    if state.rxMaxSize.toInt ≤ (state.rx.length : Int) then state.rx.tail else state.rx
  { state with rx := rx ++ [{ pkts := pkts, mask := pktsMask }] }

/-- What a poll of a queue does to its friend, counts and sends. -/
structure QueuePolled (ι π : Type) where
  friend : Option (QueueState ι π)
  pktsCnt : Nat
  sent : Sent ι

/-- `queue_poll`, given the state of the friend. -/
def queuePoll (brick : Brick ι) (friend : Option (QueueState ι π)) (answers : Answers)
    : QueuePolled ι π :=
  match friend with
  | none => { friend := none, pktsCnt := 0, sent := { code := 0, sends := [] } }
  | some other =>
    match other.rx with
    | [] =>
      { friend := some other
        pktsCnt := 0
        sent := { code := 0, sends := [] } }
    | burst :: rest =>
      { friend := some { other with rx := rest }
        pktsCnt := (lowBits burst.mask).length
        sent :=
          burstOnce (edgeSend brick .west 0 brick.output burst.mask) answers }

end Queue

end PacketGraph
