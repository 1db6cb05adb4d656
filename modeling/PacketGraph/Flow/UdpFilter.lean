import PacketGraph.Flow.Bricks
import PacketGraph.Flow.Reach
import PacketGraph.Packet.Headers

namespace PacketGraph

open BitScan BitVec Bytes List

/-!
# Where the udp filter sends packets

A packet belongs to the port of the first filter that its UDP ports match, and
to port 0 if it has none.  The brick looks for the ports at fixed offsets in
every packet, and calls every neighbour whether it has packets for it or not.
-/

variable {ι : Type}

/-- A filter with its ports in network order. -/
def UdpFilterInfo.stored (info : UdpFilterInfo) : UdpFilterInfo where
  flag := info.flag
  udpSrcPort := rteCpuToBe16 info.udpSrcPort
  udpDstPort := rteCpuToBe16 info.udpDstPort

/-- `udp_filter_init`. -/
def udpFilterInit (toSide : Side) (ports : List UdpFilterInfo) : UdpFilterState where
  toSide := toSide
  filters := ports.map UdpFilterInfo.stored

/-- Where the UDP header of an untagged packet starts, by its IP header. -/
def udpHeaderOf (pkt : Mbuf) : Nat :=
  pkt.dataOff + sizeofEtherHdr + 4 * ((pkt.frame sizeofEtherHdr).toNat % 16)

/-- Do the ports in the UDP header of a packet match a filter? -/
def UdpFilterInfo.isMatch (info : UdpFilterInfo) (pkt : Mbuf) : Bool :=
  (info.flag.getLsbD 0 && loadBe16 pkt.buf (udpHeaderOf pkt + 2) = info.udpDstPort.toNat) ||
    (info.flag.getLsbD 1 && loadBe16 pkt.buf (udpHeaderOf pkt) = info.udpSrcPort.toNat)

/-- The port behind the first filter that holds, and 0 if there is none. -/
def firstPort (filters : List UdpFilterInfo) (holds : UdpFilterInfo → Bool) : Nat :=
  match filters.findIdx? holds with
  | some j => j + 1
  | none => 0

/-- The port that a packet belongs to. -/
def udpPortOf (ports : List UdpFilterInfo) (pkt : Mbuf) : Nat :=
  if isIpv4Udp pkt then firstPort ports (fun info => info.isMatch pkt) else 0

/-- The port that the bytes at the offsets of `struct header` lead to. -/
def fixedPortOf (ports : List UdpFilterInfo) (pkt : Mbuf) : Nat :=
  firstPort ports (fun info => info.stored.hits pkt)

/-- A burst is split between ports, and no port gets an empty part of it. -/
structure PartitionsBurst (portOf : Nat → Nat) (pktsMask : BitVec 64) (sends : List (Send ι)) :
    Prop where
  routed : ∀ i, pktsMask.getLsbD i = true →
      (sends.filter (fun send => send.mask.getLsbD i)).map Send.index = [portOf i]
  within : ∀ send ∈ sends, ∀ i, send.mask.getLsbD i = true → pktsMask.getLsbD i = true
  nonempty : ∀ send ∈ sends, send.mask ≠ 0#64

section Masks

/-- Is a packet marked for a port? -/
def isMarked (filters : List UdpFilterInfo) (pkt : Mbuf) (port : Nat) : Bool :=
  (!isIpv4Udp pkt && decide (port = 0)) ||
    decide (port = firstPort filters (fun filter => filter.hits pkt))

theorem getLsbD_markPort (portMask : Nat → BitVec 64) (marked port i place : Nat)
    (inside : i < 64) :
    (markPort portMask marked i port).getLsbD place =
      ((portMask port).getLsbD place || decide (port = marked ∧ place = i)) := by
  unfold markPort
  by_cases here : port = marked
  · subst here
    rw [Function.update_self, getLsbD_or_one_shiftLeft]
    by_cases same : place = i
    · simp [same, inside]
    · simp [same]
  · simp [here]

variable (filters : List UdpFilterInfo)

theorem getLsbD_udpFilterFrom (pkts : Nat → Mbuf) {places : List Nat}
    (inside : ∀ i ∈ places, i < 64) (portMask : Nat → BitVec 64) (port place : Nat) :
    (udpFilterFrom filters pkts places portMask port).getLsbD place =
      ((portMask port).getLsbD place ||
        (decide (place ∈ places) && isMarked filters (pkts place) port)) := by
  induction places generalizing portMask with
  | nil => simp [udpFilterFrom]
  | cons i rest ih =>
    obtain ⟨here, later⟩ := forall_mem_cons.mp inside
    -- one round marks the default port and the port of the first hit
    have round : udpFilterFrom filters pkts (i :: rest) portMask = udpFilterFrom filters pkts rest
            (markPort (if isIpv4Udp (pkts i) then portMask else markPort portMask 0 i)
              (firstPort filters (fun filter => filter.hits (pkts i))) i) := by
      simp only [udpFilterFrom, firstPort]
      cases filters.findIdx? (fun filter => filter.hits (pkts i)) <;> rfl
    rw [round, ih later, getLsbD_markPort _ _ _ _ _ here]
    unfold isMarked
    by_cases same : place = i
    · subst same
      split <;> rename_i isUdp <;>
        simp [isUdp, getLsbD_markPort _ _ _ _ _ here, Bool.or_assoc] <;> grind
    · split <;> simp [same, getLsbD_markPort _ _ _ _ _ here]

theorem firstPort_le (holds : UdpFilterInfo → Bool) : firstPort filters holds ≤ filters.length := by
  unfold firstPort
  split
  · rename_i j found
    exact (findIdx?_eq_some_iff_getElem.mp found).1
  · exact Nat.zero_le _

theorem udpPortOf_le (ports : List UdpFilterInfo) (pkt : Mbuf) :
    udpPortOf ports pkt ≤ ports.length := by
  unfold udpPortOf
  split
  · exact firstPort_le _ _
  · exact Nat.zero_le _

/-- A packet is marked for its port only, exactly if it is led there. -/
theorem isMarked_iff (ports : List UdpFilterInfo) (pkt : Mbuf) :
    (∀ port < ports.length + 1, isMarked (ports.map UdpFilterInfo.stored) pkt port = true ↔
          port = udpPortOf ports pkt) ↔
      fixedPortOf ports pkt = udpPortOf ports pkt := by
  have led : firstPort (ports.map UdpFilterInfo.stored) (fun filter => filter.hits pkt) =
        fixedPortOf ports pkt := by
    unfold fixedPortOf firstPort
    rw [findIdx?_map]
    rfl
  have fixedLe : fixedPortOf ports pkt ≤ ports.length := firstPort_le _ _
  unfold isMarked
  rw [led]
  constructor
  · intro marks
    exact (marks _ (by omega)).mp (by simp)
  · intro same port _
    rw [same]
    by_cases isUdp : isIpv4Udp pkt = true
    · simp [isUdp]
    · simp [isUdp, udpPortOf]

end Masks

section Calls

variable {bound : Nat}

theorem filter_range_eq_singleton_iff {chosen : Nat} {test : Nat → Bool} (inside : chosen < bound) :
    (List.range bound).filter test = [chosen] ↔
      ∀ port < bound, test port = true ↔ port = chosen := by
  constructor
  · intro isSingle port below
    have member : port ∈ (List.range bound).filter test ↔ port = chosen := by
      rw [isSingle, mem_singleton]
    simpa [below] using member
  · intro chooses
    refine perm_singleton.mp ((perm_ext_iff_of_nodup (nodup_range.filter _)
        (nodup_singleton _)).mpr (fun port => ?_))
    rw [mem_filter, mem_range, mem_singleton]
    constructor
    · rintro ⟨below, tested⟩
      exact (chooses port below).mp tested
    · rintro rfl
      exact ⟨inside, (chooses _ inside).mpr rfl⟩

variable {call : Nat → Option (Send ι)} {portMask : Nat → BitVec 64}

/-- Calls on linked edges, seen by the ports whose part passes a test. -/
theorem map_index_calls {ports : List Nat}
    (calls :
      ∀ port ∈ ports, ∃ send, call port = some send ∧ send.index = port ∧ send.mask = portMask port)
    (test : BitVec 64 → Bool) :
    ((ports.filterMap call).filter (fun send => test send.mask)).map Send.index =
      ports.filter (fun port => test (portMask port)) := by
  induction ports with
  | nil => rfl
  | cons port rest ih =>
    obtain ⟨here, later⟩ := forall_mem_cons.mp calls
    obtain ⟨send, isCall, isIndex, isMask⟩ := here
    have restCalls := ih later
    rw [filterMap_cons_some isCall, filter_cons, filter_cons, isMask]
    split
    · rw [map_cons, isIndex, restCalls]
    · exact restCalls

/-- A burst that goes out on linked edges is judged by the masks of the ports. -/
theorem partitionsBurst_calls_iff {portOf : Nat → Nat} {pktsMask : BitVec 64}
    (calls : ∀ port ∈ List.range bound, ∃ send, call port = some send ∧ send.index = port ∧
        send.mask = portMask port) (inside : ∀ i, portOf i < bound) :
    PartitionsBurst portOf pktsMask ((List.range bound).filterMap call) ↔
      (∀ i, pktsMask.getLsbD i = true →
        ∀ port < bound, (portMask port).getLsbD i = true ↔ port = portOf i) ∧
      ∀ port < bound, portMask port ≠ 0#64 ∧
          ∀ i, (portMask port).getLsbD i = true → pktsMask.getLsbD i = true := by
  have routed (i : Nat) :
      (List.range bound).filter (fun port => (portMask port).getLsbD i) = [portOf i] ↔ _ :=
    filter_range_eq_singleton_iff (inside i)
  have masks (test : BitVec 64 → Prop) :
      (∀ send ∈ (List.range bound).filterMap call, test send.mask) ↔
        ∀ port < bound, test (portMask port) := by
    constructor
    · intro tests port below
      obtain ⟨send, isCall, -, isMask⟩ := calls port (mem_range.mpr below)
      rw [← isMask]
      exact tests send (mem_filterMap.mpr ⟨port, mem_range.mpr below, isCall⟩)
    · intro tests send isSent
      obtain ⟨port, below, isCall⟩ := mem_filterMap.mp isSent
      obtain ⟨other, isOther, -, isMask⟩ := calls port below
      rw [isCall] at isOther
      cases isOther
      rw [isMask]
      exact tests port (mem_range.mp below)
  constructor
  · rintro ⟨isRouted, within, nonempty⟩
    refine ⟨fun i isIn => (routed i).mp ?_, fun port below => ⟨?_, ?_⟩⟩
    · rw [← map_index_calls calls (fun mask => mask.getLsbD i)]
      exact isRouted i isIn
    · exact (masks (· ≠ 0#64)).mp nonempty port below
    · exact (masks (fun mask => ∀ i, mask.getLsbD i = true → pktsMask.getLsbD i = true)).mp
        within port below
  · rintro ⟨isRouted, filled⟩
    refine ⟨fun i isIn => ?_, ?_, ?_⟩
    · rw [map_index_calls calls (fun mask => mask.getLsbD i)]
      exact (routed i).mpr (isRouted i isIn)
    · exact (masks (fun mask => ∀ i, mask.getLsbD i = true → pktsMask.getLsbD i = true)).mpr
        (fun port below => (filled port below).2)
    · exact (masks (· ≠ 0#64)).mpr (fun port below => (filled port below).1)

end Calls

/--
The parts of a burst are as they should be exactly if the fixed offsets lead
each packet to its port, and each port has a packet.
-/
theorem udp_filter_partitions_iff
    {brick : Brick ι} {toSide fromSide : Side} (ports : List UdpFilterInfo)
    (pkts : Nat → Mbuf) (pktsMask : BitVec 64) {answers : Answers} (unfiltered : fromSide ≠ toSide)
    (linked : ∀ port ≤ ports.length, ∃ link pairIndex, (brick.sides (pgFlipSide
        fromSide)).edges[port]? = some ⟨some link, pairIndex⟩)
    (calm : ∀ call, answers call = 0) :
    PartitionsBurst (fun i => udpPortOf ports (pkts i)) pktsMask
        (udpFilterBurst brick (udpFilterInit toSide ports) fromSide pkts pktsMask answers).sends ↔
      (∀ i, pktsMask.getLsbD i = true → fixedPortOf ports (pkts i) = udpPortOf ports (pkts i)) ∧
      ∀ port ≤ ports.length, ∃ i, pktsMask.getLsbD i = true ∧ udpPortOf ports (pkts i) = port := by
  obtain ⟨portMask, isPortMask⟩ : ∃ portMask,
        udpFilterFrom (ports.map UdpFilterInfo.stored) pkts (lowBits pktsMask)
          (fun _ => 0#64) = portMask := ⟨_, rfl⟩
  have bit (port i : Nat) : (portMask port).getLsbD i =
        (pktsMask.getLsbD i && isMarked (ports.map UdpFilterInfo.stored) (pkts i) port) := by
    rw [← isPortMask, getLsbD_udpFilterFrom]
    · simp
    · exact fun i isIn => lt_of_getLsbD (mem_lowBits.mp isIn)
  have sends : (udpFilterBurst brick (udpFilterInit toSide ports) fromSide pkts pktsMask
          answers).sends = (List.range (ports.length + 1)).filterMap (fun port =>
            edgeSend brick (pgFlipSide fromSide) port fromSide (portMask port)) := by
    unfold udpFilterBurst
    rw [if_neg (show fromSide ≠ (udpFilterInit toSide ports).toSide from unfiltered),
      burstEach_of_calm _ _ calm]
    simp [udpFilterInit, isPortMask, filterMap_map]
  have calls : ∀ port ∈ List.range (ports.length + 1), ∃ send,
        edgeSend brick (pgFlipSide fromSide) port fromSide (portMask port) = some send ∧
          send.index = port ∧ send.mask = portMask port := by
    intro port below
    obtain ⟨link, pairIndex, isEdge⟩ := linked port (Nat.lt_succ_iff.mp (mem_range.mp below))
    refine ⟨⟨pgFlipSide fromSide, port, link, fromSide, pairIndex, portMask port⟩, ?_, rfl, rfl⟩
    simp only [edgeSend, isEdge]
  rw [sends, partitionsBurst_calls_iff calls (fun i => Nat.lt_succ_of_le (udpPortOf_le _ _))]
  have led (i : Nat) (isIn : pktsMask.getLsbD i = true) : (∀ port < ports.length + 1,
        (portMask port).getLsbD i = true ↔ port = udpPortOf ports (pkts i)) ↔
        fixedPortOf ports (pkts i) = udpPortOf ports (pkts i) := by
    rw [← isMarked_iff]
    simp only [bit, isIn, Bool.true_and]
  constructor
  · rintro ⟨isRouted, filled⟩
    refine ⟨fun i isIn => (led i isIn).mp (isRouted i isIn), fun port below => ?_⟩
    obtain ⟨isFilled, within⟩ := filled port (by omega)
    obtain ⟨i, isSet⟩ := not_forall.mp (fun noBit => isFilled (eq_zero_iff.mpr noBit))
    rw [Bool.not_eq_false] at isSet
    have isIn := within i isSet
    exact ⟨i, isIn, ((isRouted i isIn port (by omega)).mp isSet).symm⟩
  · rintro ⟨isLed, covered⟩
    refine ⟨fun i isIn => (led i isIn).mpr (isLed i isIn), fun port below => ⟨?_, ?_⟩⟩
    · intro isEmpty
      obtain ⟨i, isIn, isPort⟩ := covered port (by omega)
      have isSet := ((led i isIn).mpr (isLed i isIn) port below).mpr isPort.symm
      rw [isEmpty, getLsbD_zero] at isSet
      cases isSet
    · intro i isSet
      rw [bit, Bool.and_eq_true] at isSet
      exact isSet.1

section Instances

/-- A filter brick with two linked ports on its east side. -/
def filterBrick : Brick Unit :=
  { blankBrick Unit { name := "filter", westMax := 1, eastMax := 2, type := .multipole } with
    east := { max := 2, nb := 2, edges := [⟨some (), 0⟩, ⟨some (), 0⟩] } }

/-- A filter on UDP source port 68. -/
def bootFilter : UdpFilterInfo where
  udpSrcPort := 68#16
  udpDstPort := 67#16
  flag := 2#32

/-- An untagged frame with an ether type, UDP as IP protocol and port 68. -/
def bootPacket (etherType : BitVec 8) : Mbuf :=
  { Mbuf.zero with
    buf := fun place => match place with
      | 12 => etherType
      | 14 => 0x45#8
      | 23 => 17#8
      | 35 => 68#8
      | _ => 0#8 }

/-- A UDP packet and one of another kind. -/
theorem udp_filter_partitions_iff_boot :
    PartitionsBurst
      (fun i => udpPortOf [bootFilter] (if i = 0 then bootPacket 8#8 else Mbuf.zero)) 3#64
      (udpFilterBurst filterBrick (udpFilterInit .east [bootFilter]) .west
        (fun i => if i = 0 then bootPacket 8#8 else Mbuf.zero) 3#64 (fun _ => 0)).sends := by
  refine (udp_filter_partitions_iff [bootFilter] _ 3#64 (by decide) ?_ (fun _ => rfl)).mpr ⟨?_, ?_⟩
  · intro port below
    have two : port = 0 ∨ port = 1 := by simp at below; omega
    rcases two with rfl | rfl <;> exact ⟨(), 0, rfl⟩
  · intro i isIn
    have places : lowBits 3#64 = [0, 1] := by decide +kernel
    have member := mem_lowBits.mpr isIn
    rw [places, mem_pair] at member
    rcases member with rfl | rfl <;> decide +kernel
  · intro port below
    have two : port = 0 ∨ port = 1 := by simp at below; omega
    rcases two with rfl | rfl
    · exact ⟨1, by decide +kernel⟩
    · exact ⟨0, by decide +kernel⟩

/-- A frame that is no IP packet goes to the default port and to another one. -/
theorem stray_frame_sent_twice :
    ¬ PartitionsBurst (fun _ => udpPortOf [bootFilter] (bootPacket 0#8)) 1#64
      (udpFilterBurst filterBrick (udpFilterInit .east [bootFilter]) .west
        (fun _ => bootPacket 0#8) 1#64 (fun _ => 0)).sends := by
  intro partition
  have routed := partition.routed 0 rfl
  revert routed
  decide +kernel

end Instances

end PacketGraph
