import PacketGraph.Vtep.Destination

namespace PacketGraph

open BitScan Bytes Effects List

/-!
# The length fields of packets that a vtep sends

The IPv4 header counts itself and what follows it, the IPv6 header only what
follows it.  The helper that gives the length of the datagram takes an IPv4
header for both, and it takes the length of the frame from the first segment.
The membership report of the IPv6 vtep counts its own IP header as well.
-/

variable {ι : Type} {version : IpVersion}

/-- Where the length field of an IP header starts. -/
def ipLengthOffset : IpVersion → Nat
  | .v4 => 2
  | .v6 => 4

/-- How many bytes an IP header should count, of those behind Ethernet. -/
def ipCounted (version : IpVersion) (bytes : Nat) : Nat :=
  match version with
  | .v4 => bytes
  | .v6 => bytes - sizeofIpHdr .v6

/-- The length in the IP header of a packet. -/
def ipLength (version : IpVersion) (pkt : Mbuf) : Nat :=
  loadBe16 pkt.buf (pkt.dataOff + sizeofEtherHdr + ipLengthOffset version)

/-- The length in the UDP header of a packet. -/
def udpLength (version : IpVersion) (pkt : Mbuf) : Nat :=
  loadBe16 pkt.buf (udpOf version (pkt.dataOff + sizeofEtherHdr) + 4)

/-- The IP header of a packet has the right length. -/
def IpLengthRight (version : IpVersion) (pkt : Mbuf) : Prop :=
  ipLength version pkt = ipCounted version (pkt.pktLen - sizeofEtherHdr)

/-- The UDP header of a packet counts the bytes from UDP on. -/
def UdpLengthRight (version : IpVersion) (pkt : Mbuf) : Prop :=
  udpLength version pkt = pkt.pktLen - sizeofEtherHdr - sizeofIpHdr version

section Encapsulated

/-- The length in an IP header. -/
theorem ipHeader_length (sum : Nat) (packetId : BitVec 16) (srcIp dstIp : Ip version)
    (len : BitVec 16) :
    ∃ leading trailing, ipHeader version sum packetId srcIp dstIp len =
          leading ++ (bytesOf 2 (rteCpuToBe16 len) ++ trailing) ∧
        leading.length = ipLengthOffset version := by
  cases version with
  | v4 =>
    refine ⟨[0x45#8, 0#8], bytesOf 2 packetId ++ ([0#8, 0#8, 64#8, 17#8] ++ (bytesOf 2
              (pgIpv4UdpCksum sum (rteCpuToBe16 len) packetId dstIp) ++
            (bytesOf 4 srcIp ++ bytesOf 4 dstIp))), ?_, rfl⟩
    unfold ipHeader ip4Build
    simp only [append_assoc]
  | v6 =>
    refine ⟨[0x60#8, 0#8, 0#8, 0#8],
      [17#8, 0xFF#8] ++ (bytesOf 16 srcIp ++ bytesOf 16 dstIp), ?_, rfl⟩
    unfold ipHeader ip6Build
    simp only [append_assoc]

variable (state : VtepState version) (packetId : BitVec 16) (vni : BitVec 32)
  (destination : Destination version)

theorem pktLen_outerPkt (inner : Mbuf) :
    (outerPkt state packetId vni destination inner).pktLen =
      inner.pktLen + headerLength version := by
  unfold outerPkt outerMetadata
  split
  · rfl
  · split <;> rfl

/-- The IP length that is written. -/
theorem ipLength_outerPkt (inner : Mbuf) :
    ipLength version (outerPkt state packetId vni destination inner) =
      (inner.dataLen + ipOverhead) % 65536 := by
  have fits : ipLengthOffset version + 2 ≤ sizeofIpHdr version := by cases version <;> decide
  obtain ⟨leading, trailing, isHeader, isOffset⟩ :=
    ipHeader_length state.sum packetId state.ip destination.2
      (BitVec.ofNat 16 inner.dataLen + BitVec.ofNat 16 ipOverhead)
  unfold ipLength
  rw [buf_outerPkt, dataOff_outerPkt]
  unfold loadBe16 outerBuf
  dsimp only
  rw [load_outerUdp (by unfold udpOf; omega)]
  unfold outerAddresses
  rw [load_store_field isHeader isOffset, rteCpuToBe16_rteCpuToBe16,
    ← BitVec.ofNat_add, BitVec.toNat_ofNat]

/-- The UDP length that is written. -/
theorem udpLength_outerPkt (inner : Mbuf) :
    udpLength version (outerPkt state packetId vni destination inner) =
      (inner.dataLen + udpOverhead) % 65536 := by
  unfold udpLength
  rw [buf_outerPkt, dataOff_outerPkt]
  have written (buf : Memory) (udp : Nat) (len seed : BitVec 16) :
      load 2 (store buf udp (udpBuild state.udpDstPortBe len seed))
          (udp + 4) = rteCpuToBe16 len := by
    have isHeader : udpBuild state.udpDstPortBe len seed =
          (bytesOf 2 (rteCpuToBe16 (srcPortCompute seed)) ++ bytesOf 2 state.udpDstPortBe) ++
            (bytesOf 2 (rteCpuToBe16 len) ++ [0#8, 0#8]) :=
      append_assoc ..
    exact load_store_field isHeader rfl
  unfold loadBe16 outerBuf outerUdp
  dsimp only
  split
  · rw [load_store_of_le (by omega), written, rteCpuToBe16_rteCpuToBe16,
      ← BitVec.ofNat_add, BitVec.toNat_ofNat]
  · rw [written, rteCpuToBe16_rteCpuToBe16, ← BitVec.ofNat_add, BitVec.toNat_ofNat]

/--
The outer lengths of an encapsulated frame are right exactly if its headers
are IPv4 ones and the frame is one segment.
-/
theorem outerPkt_lengths_iff {inner : Mbuf} (segments : inner.dataLen ≤ inner.pktLen)
    (fits : inner.pktLen + headerLength version < 65536) :
    IpLengthRight version (outerPkt state packetId vni destination inner) ∧ UdpLengthRight version
          (outerPkt state packetId vni destination inner) ↔
      version = .v4 ∧ inner.pktLen = inner.dataLen := by
  unfold IpLengthRight UdpLengthRight
  rw [ipLength_outerPkt, udpLength_outerPkt, pktLen_outerPkt]
  unfold ipCounted ipOverhead udpOverhead
  cases version with
  | v4 =>
    simp only [headerLength, sizeofHeaders, sizeofIpHdr, sizeofEtherHdr] at fits ⊢
    simp only [true_and]
    omega
  | v6 =>
    simp only [headerLength, sizeofHeaders, sizeofIpHdr, sizeofEtherHdr] at fits ⊢
    simp only [reduceCtorEq, false_and, iff_false]
    omega

theorem CopyOf.dataLen {frame copy : Mbuf} (isCopy : CopyOf frame copy) :
    copy.dataLen = frame.dataLen := by
  rcases isCopy with rfl | ⟨udata64, rfl⟩ <;> rfl

theorem CopyOf.pktLen {frame copy : Mbuf} (isCopy : CopyOf frame copy) :
    copy.pktLen = frame.pktLen := by
  rcases isCopy with rfl | ⟨udata64, rfl⟩ <;> rfl

end Encapsulated

section Reports

/-- A packet with a membership report behind its data. -/
def reportPkt (state : VtepState version) (multicastIp : Ip version) (action : Operation)
    (pkt : Mbuf) : Mbuf :=
  { pkt with
    buf :=
      store pkt.buf (pkt.dataOff + pkt.dataLen) (reportBytes state multicastIp action)
    dataLen := pkt.dataLen + (reportBytes state multicastIp action).length
    pktLen := pkt.pktLen + (reportBytes state multicastIp action).length }

/-- A call carries a report made from the first packet that is allocated. -/
def CarriesReport (world : VtepWorld ι version) (multicastIp : Ip version) (action : Operation)
    (delivery : Delivery ι) : Prop :=
  ∃ pkt, world.allocs 0 = some pkt ∧
      delivery.pkts = fun _ => reportPkt world.state multicastIp action pkt

theorem multicastInternal_carries {brick : Brick ι} {world : VtepWorld ι version}
    (noCalls : world.deliveries = []) (multicastIp : Ip version) (action : Operation) :
    Delivers (CarriesReport world multicastIp action)
      (finalState (multicastInternal brick multicastIp action world)) := by
  have nothing : Delivers (CarriesReport world multicastIp action) world := by
    intro delivery member
    rw [noCalls] at member
    cases member
  refine Spec.finalState ?_ (show world = world from rfl)
  refine .read (fun seen isSeen => ?_)
  subst isSeen
  refine Spec.startingAt ?_ nothing
  split
  · exact setError_keeps delivers_packetBlind _
  · refine .bind (Keeps.modify (fun _ holds => holds)) (fun _ => ?_)
    split
    · exact setError_keeps delivers_packetBlind _
    · rename_i pkt allocated
      dsimp only
      split
      · unfold noTailroom
        split
        · exact setError_keeps delivers_packetBlind _
        · exact .throw (fun _ holds => holds)
      · rename_i report appended
        refine .bind (forwardEdges_delivers ?_ _) (fun _ => Keeps.pure _)
        intro index send _
        refine ⟨pkt, allocated, funext (fun _ => ?_)⟩
        unfold rtePktmbufAppend at appended
        split at appended
        · cases appended
        · cases appended
          rfl

/-- The length of a report, without its Ethernet header. -/
def reportLength : IpVersion → BitVec 16
  | .v4 => 32#16
  | .v6 => 68#16

variable (state : VtepState version) (multicastIp : Ip version) (action : Operation)

theorem length_reportBytes :
    (reportBytes state multicastIp action).length =
      sizeofEtherHdr + (reportLength version).toNat := by
  cases version <;> cases action <;> rfl

/-- Both versions write the length of a report with its IP header. -/
theorem reportBytes_length :
    ∃ leading trailing, reportBytes state multicastIp action = leading ++
            (bytesOf 2 (rteCpuToBe16 (reportLength version)) ++ trailing) ∧
        leading.length = sizeofEtherHdr + ipLengthOffset version := by
  cases version with
  | v4 =>
    exact ⟨ethernetBuild .v4 state.mac (pgMulticastGetDstAddr multicastIp) ++ [0x46#8, 0#8], _, by
        unfold reportBytes membershipReport igmpReport
        simp only [append_assoc]
        rfl, rfl⟩
  | v6 =>
    exact ⟨ethernetBuild .v6 state.mac (pgMulticastGetDstAddr multicastIp) ++
          [0x60#8, 0#8, 0#8, 0#8], _, by
        unfold reportBytes membershipReport mldReport
        simp only [append_assoc]
        rfl, rfl⟩

/-- The IP length of a report is right exactly if it is an IGMP one. -/
theorem reportPkt_length_iff {pkt : Mbuf} (fresh : pkt.dataLen = 0 ∧ pkt.pktLen = 0) :
    IpLengthRight version (reportPkt state multicastIp action pkt) ↔ version = .v4 := by
  obtain ⟨leading, trailing, isReport, isOffset⟩ := reportBytes_length state multicastIp action
  have field : ipLength version (reportPkt state multicastIp action pkt) =
        (reportLength version).toNat := by
    show (rteCpuToBe16 (load 2 (store pkt.buf (pkt.dataOff + pkt.dataLen) _)
        (pkt.dataOff + sizeofEtherHdr + ipLengthOffset version))).toNat = _
    rw [fresh.1, Nat.add_zero, Nat.add_assoc,
      load_store_field isReport isOffset, rteCpuToBe16_rteCpuToBe16]
  have counts : (reportPkt state multicastIp action pkt).pktLen - sizeofEtherHdr =
        (reportLength version).toNat := by
    show pkt.pktLen + _ - sizeofEtherHdr = _
    rw [fresh.2, length_reportBytes]
    omega
  unfold IpLengthRight
  rw [counts, field]
  cases version <;> decide

end Reports

/--
The length fields of an encapsulated frame are right exactly if the vtep is an
IPv4 one and the frame is one segment, and those of a membership report
exactly if the vtep is an IPv4 one.
-/
theorem vtep_lengths_iff [DecidableEq ι] (brick : Brick ι) (version : IpVersion) :
    (∀ (host : VtepHost version) around fromSide i pkts pktsMask, fromSide ≠ host.state.output →
      ∀ delivery ∈ (finalState
          ((VtepOp.burst fromSide i pkts pktsMask).run brick host around)).deliveries,
      ∀ j, pktsMask.getLsbD j = true → (pkts j).dataLen ≤ (pkts j).pktLen →
        (pkts j).pktLen + headerLength version < 65536 →
        (IpLengthRight version (delivery.pkts j) ∧ UdpLengthRight version (delivery.pkts j) ↔
          version = .v4 ∧ (pkts j).pktLen = (pkts j).dataLen)) ∧
      ∀ (world : VtepWorld ι version) multicastIp action, world.deliveries = [] →
        (∀ pkt, world.allocs 0 = some pkt → pkt.dataLen = 0 ∧ pkt.pktLen = 0) →
        ∀ delivery ∈ (finalState (multicastInternal brick multicastIp action world)).deliveries,
        (IpLengthRight version (delivery.pkts 0) ↔ version = .v4) := by
  refine ⟨?_, ?_⟩
  · intro host around fromSide i pkts pktsMask inner delivery emitted j inBurst segments fits
    have carries :=
      vtepBurst_carries (show (host.world around pkts : VtepWorld ι version).deliveries = []
          from rfl) inner i delivery emitted j inBurst
    obtain ⟨packetId, copy, isCopy, _, isPkt⟩ := carries
    replace isCopy : CopyOf (pkts j) copy := isCopy
    rw [isPkt, ← isCopy.dataLen, ← isCopy.pktLen]
    refine outerPkt_lengths_iff _ _ _ _ ?_ ?_
    · rw [isCopy.dataLen, isCopy.pktLen]
      exact segments
    · rw [isCopy.pktLen]
      exact fits
  · intro world multicastIp action noCalls fresh delivery sent
    obtain ⟨pkt, allocated, isReport⟩ :=
      multicastInternal_carries noCalls multicastIp action delivery sent
    rw [isReport]
    exact reportPkt_length_iff world.state multicastIp action (fresh pkt allocated)

/-- An IPv6 vtep as it is made. -/
def lengthsHost : VtepHost .v6 where
  state := vtepInit .west 0#128 0#48 0#16 0#32
  leaves := fun _ => calmSurroundings
  stopped := none

/-- Surroundings in which fresh packets have room for a report. -/
def lengthsRoomy : Surroundings :=
  { calmSurroundings with allocs := fun _ => some { Mbuf.zero with bufLen := 256 } }

/-- VNI 1 is attached to the port of the hub. -/
def lengthsAttach : VtepOp Bool .v6 :=
  .addVni (some true) 1#32 0xFF#128

/-- The IPv6 vtep after VNI 1 was attached. -/
def lengthsVtep : VtepHost .v6 :=
  lengthsHost.left (lengthsAttach.run (vtepHubRing.brick false) lengthsHost lengthsRoomy)

/-- A frame of 14 bytes, perhaps with another segment behind it. -/
def lengthsFrame (pktLen : Nat) : Mbuf :=
  { Mbuf.zero with dataOff := 80, dataLen := 14, pktLen := pktLen }

/-- The IP length and the right one of what an operation sends. -/
def lengthsSent (version : IpVersion) (host : VtepHost version) (op : VtepOp Bool version)
    : List (Nat × Nat) :=
  (finalState (op.run (vtepHubRing.brick false) host lengthsRoomy)).deliveries.map (fun delivery =>
        (ipLength version (delivery.pkts 0),
          ipCounted version ((delivery.pkts 0).pktLen - sizeofEtherHdr)))

/-- A frame of one segment that an IPv4 vtep emits has the right lengths. -/
theorem vtep_lengths_iff_single :
    ∃ delivery ∈ (finalState ((VtepOp.burst .east 0 (fun _ => lengthsFrame 14) 1#64).run
          (vtepHubRing.brick false) learntVtep calmSurroundings)).deliveries,
      IpLengthRight .v4 (delivery.pkts 0) ∧ UdpLengthRight .v4 (delivery.pkts 0) := by
  have emits : (finalState ((VtepOp.burst .east 0 (fun _ => lengthsFrame 14) 1#64).run
          (vtepHubRing.brick false) learntVtep calmSurroundings)).deliveries.isEmpty = false := by
    decide +kernel
  obtain ⟨delivery, emitted⟩ := exists_mem_of_ne_nil _ (isEmpty_eq_false_iff.mp emits)
  refine ⟨delivery, emitted, ?_⟩
  exact ((vtep_lengths_iff (vtepHubRing.brick false) .v4).1 learntVtep calmSurroundings
    .east 0 (fun _ => lengthsFrame 14) 1#64 (by decide +kernel) delivery
    emitted 0 rfl (by decide) (by decide)).mpr ⟨rfl, rfl⟩

/--
An IPv6 vtep writes 68 for the 28 bytes of a report and 50 for the 30 bytes
that carry a frame of 14; an IPv4 vtep writes 50 for the 150 bytes that carry
a frame of two segments.
-/
theorem vtep_writes_wrong_lengths :
    lengthsSent .v6 lengthsHost lengthsAttach = [(68, 28)] ∧ lengthsSent .v6 lengthsVtep
          (.burst .east 0 (fun _ => lengthsFrame 14) 1#64) = [(50, 30)] ∧
      lengthsSent .v4 learntVtep
          (.burst .east 0 (fun _ => lengthsFrame 114) 1#64) = [(50, 150)] := by
  refine ⟨?_, ?_, ?_⟩ <;> decide +kernel

end PacketGraph
