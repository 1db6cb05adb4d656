import PacketGraph.Vtep.Outer
import PacketGraph.Vtep.Safety

namespace PacketGraph

open BitScan Bytes Effects List

/-!
# Where a vtep sends frames

The outer destination of an encapsulated frame should follow from the Ethernet
destination of the frame.  The code looks this address up in `mac_to_dst`, but
whether it is a multicast address is read off the metadata of the packet,
which nothing in the vtep writes.
-/

variable {ι : Type} {version : IpVersion}

/-- The destination addresses in the outer headers of a packet. -/
def outerDestination (version : IpVersion) (pkt : Mbuf) : Destination version :=
  (load 6 pkt.buf (pkt.dataOff + dAddr), load (ipSize version) pkt.buf
      (pkt.dataOff + sizeofEtherHdr + (ipLayout version).dstAddr))

/--
The destination that a frame should be sent to: the entry of its Ethernet
destination if that is a known unicast address, and else the group of the
port.
-/
def VtepPort.routeOf (port : VtepPort version) (frame : Mbuf) : Destination version :=
  if isMulticastEtherAddr frame.frame dAddr then
    port.group
  else
    (port.entryFor (macAt frame.frame dAddr)).getD port.group

theorem ethernetBuild_dAddr (version : IpVersion) (srcMac dstMac : BitVec 48) :
    ∃ trailing, ethernetBuild version srcMac dstMac = [] ++ (bytesOf 6 dstMac ++ trailing) :=
  ⟨_, append_assoc ..⟩

/-- The destination in an IP header. -/
theorem ipHeader_dstAddr (sum : Nat) (packetId : BitVec 16) (srcIp dstIp : Ip version)
    (len : BitVec 16) :
    ∃ leading, ipHeader version sum packetId srcIp dstIp len =
          leading ++ (bytesOf (ipSize version) dstIp ++ []) ∧
        leading.length = (ipLayout version).dstAddr := by
  cases version with
  | v4 | v6 => exact ⟨_, by rw [append_nil]; rfl, rfl⟩

/-- UDP headers are written behind the destination addresses. -/
theorem load_outerUdp {state : VtepState version} {base address n : Nat} {len seed : BitVec 16}
    {buf : Memory} (before : address + n ≤ udpOf version (base + sizeofEtherHdr)) :
    load n (outerUdp state base len seed buf) address = load n buf address := by
  unfold outerUdp
  dsimp only
  split
  · rw [load_store_of_le (by omega), load_store_of_le (by omega)]
  · rw [load_store_of_le (by omega)]

variable (state : VtepState version) (packetId : BitVec 16) (vni : BitVec 32)
  (destination : Destination version)

theorem buf_outerPkt (inner : Mbuf) :
    (outerPkt state packetId vni destination inner).buf =
      outerBuf state packetId vni destination inner := by
  unfold outerPkt outerMetadata
  split
  · rfl
  · split <;> rfl

theorem dataOff_outerPkt (inner : Mbuf) :
    (outerPkt state packetId vni destination inner).dataOff =
      inner.dataOff - headerLength version := by
  unfold outerPkt outerMetadata
  split
  · rfl
  · split <;> rfl

/-- The outer headers name the destination that they are made for. -/
theorem outerDestination_outerPkt (inner : Mbuf) :
    outerDestination version (outerPkt state packetId vni destination inner) =
      destination := by
  obtain ⟨trailing, isEthernet⟩ := ethernetBuild_dAddr version state.mac destination.1
  obtain ⟨leading, isHeader, isOffset⟩ :=
    ipHeader_dstAddr state.sum packetId state.ip destination.2
      (BitVec.ofNat 16 inner.dataLen + BitVec.ofNat 16 ipOverhead)
  have fits : (ipLayout version).dstAddr + ipSize version = sizeofIpHdr version := by
    cases version <;> rfl
  unfold outerDestination
  rw [buf_outerPkt, dataOff_outerPkt]
  refine Prod.ext ?_ ?_
  · show load 6 _ (_ + dAddr) = destination.1
    unfold outerBuf
    dsimp only
    rw [load_outerUdp (by simp [udpOf, dAddr, sizeofEtherHdr]; omega)]
    unfold outerAddresses
    rw [load_store_of_le (by simp [dAddr, sizeofEtherHdr])]
    exact load_store_field isEthernet rfl
  · show load (ipSize version) _ _ = destination.2
    unfold outerBuf
    dsimp only
    rw [load_outerUdp (by unfold udpOf; omega)]
    unfold outerAddresses
    exact load_store_field isHeader isOffset

/-- What the chosen destination has to do with the right one. -/
theorem chosen_eq_routeOf_iff (port : VtepPort version) (frame : Mbuf) :
    port.chosen frame = port.routeOf frame ↔ ∀ entry,
        port.entryFor (macAt frame.frame dAddr) = some entry →
        entry = port.group ∨ frame.dstKey.getLsbD 0 = isMulticastEtherAddr frame.frame dAddr := by
  unfold VtepPort.chosen VtepPort.routeOf
  cases found : port.entryFor (macAt frame.frame dAddr) with
  | none => simp
  | some entry =>
    cases frame.dstKey.getLsbD 0 <;> cases isMulticastEtherAddr frame.frame dAddr <;> simp [eq_comm]

/--
A frame that a vtep emits has the right outer destination exactly if, should
the port know its Ethernet destination by other addresses than those of the
group, the multicast bit of its metadata is that of this destination.
-/
theorem vtep_outer_destination_iff [DecidableEq ι]
    {brick : Brick ι} {host : VtepHost version} {around : Surroundings}
    {fromSide : Side} {i : Nat} {pkts : Nat → Mbuf} {pktsMask : BitVec 64}
    (inner : fromSide ≠ host.state.output)
    {delivery : Delivery ι}
    (emitted : delivery ∈ (finalState ((VtepOp.burst fromSide i pkts pktsMask).run brick host
        around)).deliveries)
    {j : Nat}
    (inBurst : pktsMask.getLsbD j = true) :
    outerDestination version (delivery.pkts j) = (host.state.ports i).routeOf (pkts j) ↔ ∀ entry,
        (host.state.ports i).entryFor (macAt (pkts j).frame dAddr) = some entry →
        entry = (host.state.ports i).group ∨
          (pkts j).dstKey.getLsbD 0 = isMulticastEtherAddr (pkts j).frame dAddr := by
  have carries :=
    vtepBurst_carries (show (host.world around pkts : VtepWorld ι version).deliveries = []
        from rfl) inner i delivery emitted j inBurst
  obtain ⟨packetId, copy, _, _, isPkt⟩ := carries
  rw [isPkt, outerDestination_outerPkt]
  exact chosen_eq_routeOf_iff (host.state.ports i) (pkts j)

/-- The hub is linked to the output side of the vtep as well. -/
def vtepHubRing : Graph Bool (Node (VtepHost .v4) Unit) :=
  vtepHubAttached.after (nodeOps (vtepOps Bool .v4) (quietOps Bool))
    (.link (some true) (some false))

/-- A packet for VNI 1 whose inner source is `02:00:00:00:00:00`. -/
def vniOneVxlan : Mbuf :=
  { Mbuf.zero with
    buf := fun place => match place with
      | 6 => 0x0A#8
      | 23 => 17#8
      | 26 => 0x0B#8
      | 42 => 8#8
      | 48 => 1#8
      | 50 | 51 | 52 | 53 | 54 | 55 => 0xFF#8
      | 56 => 2#8
      | _ => 0#8
    dataLen := 64
    l2Len := 14 }

/-- A frame for `02:00:00:00:00:00`, whose metadata are left over. -/
def frameToLearnt (dstKey : BitVec 8) : Mbuf :=
  { Mbuf.zero with
    buf := fun place => if place = 50 then 2#8 else 0#8
    dataOff := 50
    dataLen := 14
    dstKey := dstKey }

/-- A packet for VNI 1 comes in on the output side. -/
def receiveVniOne : VtepOp Bool .v4 :=
  .burst .west 0 (fun _ => vniOneVxlan) 1#64

/-- A frame comes in on the port of the hub. -/
def emitToLearnt (dstKey : BitVec 8) : VtepOp Bool .v4 :=
  .burst .east 0 (fun _ => frameToLearnt dstKey) 1#64

/-- The vtep has learnt where `02:00:00:00:00:00` is. -/
def learntVtep : VtepHost .v4 :=
  attachedVtep.left (receiveVniOne.run (vtepHubRing.brick false) attachedVtep calmSurroundings)

/-- The addresses that the vtep has learnt. -/
def learntEntry : Destination .v4 :=
  (0x0A#48, 0x0B#32)

/-- The calls that the vtep makes when it emits the frame. -/
def emittedCalls (dstKey : BitVec 8) : List (Delivery Bool) :=
  (finalState ((emitToLearnt dstKey).run (vtepHubRing.brick false) learntVtep
    calmSurroundings)).deliveries

/-- A frame with true metadata is sent to the entry of its destination. -/
theorem vtep_outer_destination_iff_known :
    ∃ delivery ∈ emittedCalls 0#8, outerDestination .v4 (delivery.pkts 0) =
        (learntVtep.state.ports 0).routeOf (frameToLearnt 0#8) := by
  have emits : (emittedCalls 0#8).isEmpty = false := by decide +kernel
  obtain ⟨delivery, emitted⟩ := exists_mem_of_ne_nil _ (isEmpty_eq_false_iff.mp emits)
  refine ⟨delivery, emitted, ?_⟩
  exact (vtep_outer_destination_iff (by decide +kernel) emitted
    (show (1#64).getLsbD 0 = true from rfl)).mpr (fun _ _ => .inr rfl)

/--
A frame for a unicast address that the port knows is sent to the multicast
group, since its metadata are left over from a multicast packet.
-/
theorem stale_metadata_misroutes :
    ∃ (graph : Graph Bool (Node (VtepHost .v4) Unit)) (host : VtepHost .v4),
      (vtepSystem (quietOps Bool)).Reachable graph ∧ graph.priv false = .own host ∧
        host.stopped = none ∧
        (host.state.ports 0).Attached ∧
        (emitToLearnt 1#8).Linked (graph.brick false) ∧
        isMulticastEtherAddr (frameToLearnt 1#8).frame dAddr = false ∧
        (host.state.ports 0).entryFor (macAt (frameToLearnt 1#8).frame dAddr) = some learntEntry ∧
        (finalState ((emitToLearnt 1#8).run (graph.brick false) host
            calmSurroundings)).deliveries.map
            (fun delivery => outerDestination .v4 (delivery.pkts 0)) =
          [(host.state.ports 0).group] ∧
        learntEntry ≠ (host.state.ports 0).group := by
  have linked : (vtepSystem (quietOps Bool)).Reachable vtepHubRing :=
    .step (.call (.link (some true) (some false))) vtepHubAttached_reachable.of_guarded ⟨none, rfl⟩
  have learnt : (vtepSystem (quietOps Bool)).Reachable { vtepHubRing with
          priv := Function.update vtepHubRing.priv false (.own learntVtep) } :=
    .step (.operate false receiveVniOne calmSurroundings) linked ⟨attachedVtep, rfl, rfl, rfl, rfl⟩
  refine ⟨_, learntVtep, learnt, rfl, ?_, ?_, rfl, rfl, ?_, ?_, ?_⟩ <;> decide +kernel

/-! A vtep only puts headers in front of a frame. -/

/-- The outer headers of a frame. -/
def outerHeaders (port : VtepPort version) (frame : Mbuf) (cksum : BitVec 16) : List (BitVec 8) :=
  let len := BitVec.ofNat 16 frame.dataLen
  let (dstMac, dstIp) := port.chosen frame
  ethernetBuild version state.mac dstMac ++
    (ipHeader version state.sum packetId state.ip dstIp (len + BitVec.ofNat 16 ipOverhead) ++
      ((udpBuild state.udpDstPortBe (len + BitVec.ofNat 16 udpOverhead) frame.addrBytes).take 6 ++
        (bytesOf 2 cksum ++ vxlanBuild port.vni)))

/-- Outer headers are in front of a frame, with a UDP checksum only if asked for. -/
def Prepended (port : VtepPort version) (frame pkt : Mbuf) : Prop :=
  ∃ packetId cksum, (¬ (state.forceUpdIpv6Checksum ∧ version = .v6) → cksum = 0#16) ∧
    pkt.data = outerHeaders state packetId port frame cksum ++ frame.data

/-- Headers that are written behind one another, the last one first. -/
theorem slice_headers {memory : Memory} {base length e i u v : Nat}
    {ether ip udp vxlan : List (BitVec 8)} (isEther : ether.length = e) (isIp : ip.length = i)
    (isUdp : udp.length = u) (isVxlan : vxlan.length = v) :
    slice (store (store (store (store memory (base + e + i + u) vxlan) base ether) (base + e) ip)
        (base + e + i) udp) base (e + (i + (u + (v + length)))) =
      ether ++ (ip ++ (udp ++ (vxlan ++ slice memory (base + e + i + u + v) length))) := by
  simp (disch := omega) only [slice_add, slice_store_of_apart, slice_store]

variable {state}

/-- A UDP header is written as a whole. -/
theorem outerUdp_eq (base : Nat) (len seed : BitVec 16) (buf : Memory) :
    ∃ cksum, (¬ (state.forceUpdIpv6Checksum ∧ version = .v6) → cksum = 0#16) ∧
      outerUdp state base len seed buf = store buf (udpOf version (base + sizeofEtherHdr))
        ((udpBuild state.udpDstPortBe len seed).take 6 ++ bytesOf 2 cksum) := by
  unfold outerUdp
  dsimp only
  split
  · generalize ipUdptcpCksum version _ _ _ = cksum
    refine ⟨cksum, fun free => absurd ‹_› free, ?_⟩
    show store (store buf _ (_ ++ ([0#8, 0#8] ++ []))) (_ + 6) _ = _
    refine (store_store_within (by rfl) (by rfl)).trans ?_
    rw [append_nil]
    rfl
  · exact ⟨0#16, fun _ => rfl, rfl⟩

theorem Encapsulates.prepended {port : VtepPort version} {frame pkt : Mbuf}
    (made : Encapsulates state port frame pkt) :
    Prepended state port frame pkt := by
  obtain ⟨packetId, copy, isCopy, headroom, rfl⟩ := made
  have isLen : (outerPkt state packetId port.vni (port.chosen frame) copy).dataLen =
      sizeofEtherHdr + (sizeofIpHdr version + (8 + (8 + copy.dataLen))) := by
    unfold outerPkt outerMetadata headerLength sizeofHeaders
    split_ifs <;> dsimp only <;> omega
  obtain ⟨base, isOff⟩ := Nat.exists_eq_add_of_le' headroom
  obtain ⟨cksum, plain, isUdp⟩ := outerUdp_eq base _ _ _
  refine ⟨packetId, cksum, plain, ?_⟩
  have isCopy : copy.buf = frame.buf ∧ copy.dataOff = frame.dataOff ∧
      copy.dataLen = frame.dataLen ∧ copy.addrBytes = frame.addrBytes := by
    rcases isCopy with rfl | ⟨_, rfl⟩ <;> exact ⟨rfl, rfl, rfl, rfl⟩
  unfold Mbuf.data
  rw [isLen, buf_outerPkt, dataOff_outerPkt, outerBuf, isCopy.2.1, isOff, Nat.add_sub_cancel]
  refine (congrArg (slice · _ _) isUdp).trans
    ((slice_headers (by rfl) (by cases version <;> rfl) (by rfl) (by rfl)).trans ?_)
  unfold outerHeaders headerLength sizeofHeaders
  simp only [append_assoc, Nat.add_assoc, Nat.add_comm sizeofEtherHdr, isCopy]

/-- What a port emits for a frame are its headers and the frame. -/
theorem vtep_emits_headers_and_frame [DecidableEq ι] {brick : Brick ι} {host : VtepHost version}
    {around : Surroundings} {fromSide : Side} {i : Nat} {pkts : Nat → Mbuf} {pktsMask : BitVec 64}
    (inner : fromSide ≠ host.state.output) {delivery : Delivery ι}
    (emitted : delivery ∈ (finalState ((VtepOp.burst fromSide i pkts pktsMask).run brick host
        around)).deliveries) {j : Nat} (inBurst : pktsMask.getLsbD j = true) :
    Prepended host.state (host.state.ports i) (pkts j) (delivery.pkts j) := by
  have carries :=
    vtepBurst_carries (show (host.world around pkts : VtepWorld ι version).deliveries = []
        from rfl) inner i delivery emitted j inBurst
  exact carries.prepended

/-- The frame for a known address is emitted. -/
theorem vtep_emits_known_frame :
    ∃ delivery ∈ emittedCalls 0#8,
      Prepended learntVtep.state (learntVtep.state.ports 0) (frameToLearnt 0#8)
        (delivery.pkts 0) := by
  have emits : (emittedCalls 0#8).isEmpty = false := by decide +kernel
  obtain ⟨delivery, emitted⟩ := exists_mem_of_ne_nil _ (isEmpty_eq_false_iff.mp emits)
  exact ⟨delivery, emitted, vtep_emits_headers_and_frame (by decide +kernel) emitted
    (show (1#64).getLsbD 0 = true from rfl)⟩

end PacketGraph
