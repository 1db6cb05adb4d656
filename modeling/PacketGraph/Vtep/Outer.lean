import PacketGraph.Vtep.Tables
import PacketGraph.Vtep.Sends

namespace PacketGraph

open BitScan Bytes Effects Function List

/-!
# What encapsulation writes

A packet that leaves a vtep by its output side is the frame of a port with
fresh headers in front of it.  The headers follow from the settings of the
vtep, the VNI of the port and the destination that was chosen for the frame.
Everything else about the burst, such as earlier packets of it or the age of
the entries of `mac_to_dst`, plays no role.
-/

variable {ι V : Type} {version : IpVersion}

section Destinations

/-- The MAC and the IP that a packet is sent to. -/
abbrev Destination (version : IpVersion) :=
  BitVec 48 × Ip version

/-- The addresses of an entry. -/
def DestAddresses.destination (entry : DestAddresses version) : Destination version :=
  (entry.mac, entry.ip)

/-- The entry of a MAC in a table of a port. -/
def TableSlot.find (slot : TableSlot V) (mac : Mac) : Option V :=
  match slot with
  | .live table => pgMacTableElemGet table mac
  | _ => none

/--
What `mac_to_dst` of a port holds for a MAC.  A table that is flagged as dead
is made again before it is read, and holds nothing.
-/
def VtepPort.entryFor (port : VtepPort version) (mac : Mac) : Option (Destination version) :=
  if port.isDead isMacToDstDead then
    none
  else
    (port.macToDst.find mac).map DestAddresses.destination

/-- The multicast group of a port, and the MAC derived from it. -/
def VtepPort.group (port : VtepPort version) : Destination version :=
  (pgMulticastGetDstAddr port.multicastIp, port.multicastIp)

/-- The destination that `vtep_encapsulate` chooses for a frame. -/
def VtepPort.chosen (port : VtepPort version) (frame : Mbuf) : Destination version :=
  if frame.dstKey.getLsbD 0 then
    port.group
  else
    (port.entryFor (macAt frame.frame dAddr)).getD port.group

/-- Two values of a port by which packets are sent alike. -/
structure SameRoutes (port before : VtepPort version) : Prop where
  vni : port.vni = before.vni
  multicastIp : port.multicastIp = before.multicastIp
  entries : ∀ mac, port.entryFor mac = before.entryFor mac

theorem SameRoutes.refl (port : VtepPort version) : SameRoutes port port :=
  ⟨rfl, rfl, fun _ => rfl⟩

theorem SameRoutes.trans {first second third : VtepPort version} (later : SameRoutes third second)
    (earlier : SameRoutes second first) : SameRoutes third first :=
  ⟨later.vni.trans earlier.vni, later.multicastIp.trans earlier.multicastIp,
    fun mac => (later.entries mac).trans (earlier.entries mac)⟩

variable {port before : VtepPort version}

theorem SameRoutes.group (same : SameRoutes port before) : port.group = before.group := by
  unfold VtepPort.group
  rw [same.multicastIp]

theorem SameRoutes.chosen (same : SameRoutes port before) (frame : Mbuf) :
    port.chosen frame = before.chosen frame := by
  unfold VtepPort.chosen
  rw [same.group, same.entries]

theorem pgMacTableElemGet_zero (mac : Mac) : pgMacTableElemGet (MacTable.zero V) mac = none := by
  simp [macTableGet, MacTable.zero, BitMap.testBit]

variable {which : PortTable version V} {i : Nat} {world : VtepWorld ι version}

theorem readTable_freed (freed : which.slot (world.state.ports i) = .freed) :
    readTable which i world = .error .freedTable world := by
  rw [readTable_run, freed]

/-- A table that was not freed is read. -/
theorem readTable_found (inUse : which.slot (world.state.ports i) ≠ .freed) :
    ∃ table, readTable which i world = .ok table world ∧ ∀ mac, pgMacTableElemGet table mac =
            (which.slot (world.state.ports i)).find mac := by
  rw [readTable_run]
  cases isSlot : which.slot (world.state.ports i) with
  | absent => exact ⟨_, rfl, pgMacTableElemGet_zero⟩
  | live table => exact ⟨table, rfl, fun _ => rfl⟩
  | freed => exact absurd isSlot inUse

theorem readTable_finds {stop : VtepStop → VtepWorld ι version → Prop}
    (which : PortTable version V) (i : Nat) (seen : VtepWorld ι version)
    (stops : which.slot (seen.state.ports i) = .freed → stop .freedTable seen) :
    Spec (fun world => world = seen) (readTable which i) (fun table world =>
        world = seen ∧ ∀ mac, pgMacTableElemGet table mac =
              (which.slot (seen.state.ports i)).find mac) stop := by
  rintro world rfl
  by_cases freed : which.slot (world.state.ports i) = .freed
  · rw [readTable_freed freed]
    exact stops freed
  · obtain ⟨table, ran, entries⟩ := readTable_found freed
    rw [ran]
    exact ⟨rfl, entries⟩

theorem entryFor_of_alive (alive : port.isDead isMacToDstDead = false) (mac : Mac) :
    port.entryFor mac = (port.macToDst.find mac).map DestAddresses.destination := by
  unfold VtepPort.entryFor
  rw [alive]
  rfl

end Destinations

section Headers

/-- What of a state stays as it is while packets are handled. -/
def VtepState.settings (state : VtepState version) : VtepState version :=
  { state with
    ports := fun _ => VtepPort.zero version
    packetId := 0#16
    pkts := fun _ => Mbuf.zero }

/-- The memory of a frame after its Ethernet and IP headers were written. -/
def outerAddresses (state : VtepState version) (packetId : BitVec 16)
    (destination : Destination version) (base : Nat) (len : BitVec 16) (buf : Memory) : Memory :=
  store (store buf base (ethernetBuild version state.mac destination.1)) (base + sizeofEtherHdr)
    (ipHeader version state.sum packetId state.ip destination.2 len)

/-- The memory of a frame after its UDP header was written. -/
def outerUdp (state : VtepState version) (base : Nat) (len seed : BitVec 16) (buf : Memory)
    : Memory :=
  let ip := base + sizeofEtherHdr
  let buf := store buf (udpOf version ip) (udpBuild state.udpDstPortBe len seed)
  if state.forceUpdIpv6Checksum ∧ version = .v6 then
    store buf (udpOf version ip + 6) (bytesOf 2 (ipUdptcpCksum version buf ip (udpOf version ip)))
  else
    buf

/-- The memory of a frame with all outer headers in front of it. -/
def outerBuf (state : VtepState version) (packetId : BitVec 16) (vni : BitVec 32)
    (destination : Destination version) (inner : Mbuf) : Memory :=
  let base := inner.dataOff - headerLength version
  let len := BitVec.ofNat 16 inner.dataLen
  outerUdp state base (len + BitVec.ofNat 16 udpOverhead) inner.addrBytes
    (outerAddresses state packetId destination base (len + BitVec.ofNat 16 ipOverhead)
      (store inner.buf (vxlanOf version (base + sizeofEtherHdr)) (vxlanBuild vni)))

/-- A frame with all outer headers in front of it. -/
def outerPkt (state : VtepState version) (packetId : BitVec 16) (vni : BitVec 32)
    (destination : Destination version) (inner : Mbuf) : Mbuf :=
  outerMetadata version { inner with
      buf := outerBuf state packetId vni destination inner
      dataOff := inner.dataOff - headerLength version
      dataLen := inner.dataLen + headerLength version
      pktLen := inner.pktLen + headerLength version }

variable {state other : VtepState version}

/-- The headers follow from the settings of a vtep. -/
theorem outerPkt_of_settings (same : state.settings = other.settings) (packetId : BitVec 16)
    (vni : BitVec 32) (destination : Destination version) (inner : Mbuf) :
    outerPkt state packetId vni destination inner =
      outerPkt other packetId vni destination inner := by
  show outerPkt state.settings packetId vni destination inner =
    outerPkt other.settings packetId vni destination inner
  rw [same]

/-- A packet of the burst, or a clone of it. -/
def CopyOf (frame copy : Mbuf) : Prop :=
  copy = frame ∨ ∃ udata64, copy = rtePktmbufClone frame udata64

/-- A packet is what a port of a vtep makes of a frame. -/
def Encapsulates (state : VtepState version) (port : VtepPort version) (frame pkt : Mbuf) : Prop :=
  ∃ packetId copy, CopyOf frame copy ∧ headerLength version ≤ frame.dataOff ∧
      pkt = outerPkt state packetId port.vni (port.chosen frame) copy

theorem Encapsulates.of_same {port before : VtepPort version} {frame pkt : Mbuf}
    (made : Encapsulates state port frame pkt) (settings : state.settings = other.settings)
    (routes : SameRoutes port before) : Encapsulates other before frame pkt := by
  obtain ⟨packetId, copy, isCopy, headroom, rfl⟩ := made
  refine ⟨packetId, copy, isCopy, headroom, ?_⟩
  rw [outerPkt_of_settings settings, routes.vni, routes.chosen]

end Headers

section OnePacket

/--
While packet `j` of a burst into port `i` is encapsulated, only this packet
and what the port remembers of MACs changes.
-/
structure Handling (start : VtepWorld ι version) (i j : Nat) (packetId : BitVec 16) (pkt : Mbuf)
    (world : VtepWorld ι version) : Prop where
  tmp : world.tmp = pkt
  packetId : world.state.packetId = packetId
  settings : world.state.settings = start.state.settings
  out : world.state.pkts = start.state.pkts
  others : ∀ k, k ≠ j → world.pkts k = start.pkts k
  routes : SameRoutes (world.state.ports i) (start.state.ports i)
  alive : (world.state.ports i).isDead isMacToDstDead = false

variable {start : VtepWorld ι version} {i j : Nat} {packetId : BitVec 16} {pkt : Mbuf}
  {stop : VtepStop → VtepWorld ι version → Prop}

theorem writeTmp_handles (after : Mbuf) :
    Spec (Handling start i j packetId pkt) (writeTmp j after)
      (fun _ => Handling start i j packetId after) stop := by
  refine .modify (fun world handling => ?_)
  refine ⟨rfl, handling.packetId, handling.settings, handling.out,
    fun k other => ?_, handling.routes, handling.alive⟩
  show (if world.state.noCopy then update world.pkts j after
    else world.pkts) k = start.pkts k
  split
  · rw [update_of_ne other]
    exact handling.others k other
  · exact handling.others k other

theorem pointTo_handles (ref : PktRef) :
    Spec (Handling start i j packetId pkt) (pointTo j ref)
      (fun _ => Handling start i j packetId pkt) stop :=
  Spec.modify (fun _ handling => ⟨handling.tmp, handling.packetId, handling.settings, handling.out,
      handling.others, handling.routes, handling.alive⟩)

theorem writeBytes_handles (address : Nat) (bytes : List (BitVec 8)) :
    Spec (Handling start i j packetId pkt) (writeBytes j address bytes) (fun _ =>
        Handling start i j packetId { pkt with buf := store pkt.buf address bytes }) stop := by
  refine .read (fun seen handling => ?_)
  rw [handling.tmp]
  exact (writeTmp_handles _).startingAt handling

theorem ipBuild_handles (dstIp : Ip version) (len : BitVec 16) :
    Spec (Handling start i j packetId pkt) (ipBuild dstIp len) (fun bytes world =>
        Handling start i j (nextPacketId version packetId) pkt world ∧ bytes =
            ipHeader version start.state.sum (nextPacketId version packetId)
              start.state.ip dstIp len) stop := by
  have counted : Spec (Handling start i j packetId pkt) (modifyState (fun state =>
          { state with packetId := nextPacketId version state.packetId }))
        (fun _ => Handling start i j (nextPacketId version packetId) pkt)
        stop := by
    refine .modify (fun world handling => ?_)
    exact ⟨handling.tmp, congrArg (nextPacketId version) handling.packetId,
      handling.settings, handling.out, handling.others, handling.routes, handling.alive⟩
  refine .bind counted (fun _ => ?_)
  refine .read (fun seen handling => Spec.pure ?_)
  rintro state rfl
  have sum := congrArg VtepState.sum handling.settings
  have ip := congrArg VtepState.ip handling.settings
  change state.state.sum = start.state.sum at sum
  change state.state.ip = start.state.ip at ip
  rw [handling.packetId, sum, ip]
  exact ⟨handling, rfl⟩

theorem writeOuter_handles (base : Nat) (destination : Destination version) (len : BitVec 16) :
    Spec (Handling start i j packetId pkt) (writeOuter j base destination.1 destination.2 len)
      (fun _ => Handling start i j (nextPacketId version packetId) { pkt with
            buf :=
              outerAddresses start.state (nextPacketId version packetId)
                destination base len pkt.buf }) stop := by
  refine .read (fun seen handling => ?_)
  have mac := congrArg VtepState.mac handling.settings
  change seen.state.mac = start.state.mac at mac
  rw [mac]
  refine .bind ((writeBytes_handles _ _).startingAt handling) (fun _ => ?_)
  refine .bind (ipBuild_handles _ _) (fun bytes => ?_)
  refine .of_start (fun built both => ?_)
  obtain ⟨handling, rfl⟩ := both
  exact (writeBytes_handles _ _).startingAt handling

theorem writeUdp_handles (base : Nat) (len seed : BitVec 16) :
    Spec (Handling start i j packetId pkt) (writeUdp j base len seed) (fun _ =>
        Handling start i j packetId { pkt with buf := outerUdp start.state base len seed pkt.buf })
      stop := by
  refine .read (fun seen handling => ?_)
  have port := congrArg VtepState.udpDstPortBe handling.settings
  have flags := congrArg VtepState.flags handling.settings
  change seen.state.udpDstPortBe = start.state.udpDstPortBe at port
  change seen.state.flags = start.state.flags at flags
  have forced : seen.state.forceUpdIpv6Checksum = start.state.forceUpdIpv6Checksum :=
    congrArg (fun flags => flags.getLsbD 2) flags
  rw [port, forced]
  refine .bind ((writeBytes_handles _ _).startingAt handling) (fun _ => ?_)
  unfold outerUdp
  dsimp only
  split
  · refine .read (fun written handling => ?_)
    rw [handling.tmp]
    exact (writeBytes_handles _ _).startingAt handling
  · exact .pure (fun _ handling => handling)

/-- The age of an entry says nothing about its addresses. -/
theorem destination_refreshed (table : MacTable (DestAddresses version)) (mac other : Mac)
    (tick : BitVec 64) :
    (pgMacTableElemGet (table.refreshed tick mac) other).map DestAddresses.destination =
      (pgMacTableElemGet table other).map DestAddresses.destination := by
  have masks : ((table.refreshed tick mac).sub (pgMacTablePart1 other)).mask =
        (table.sub (pgMacTablePart1 other)).mask := by
    unfold MacTable.sub MacTable.refreshed SubTable.refreshed
    by_cases here : pgMacTablePart1 other = pgMacTablePart1 mac
    · rw [here]
      cases table.subs (pgMacTablePart1 mac) <;> simp
    · simp [update_of_ne here]
  have entries : (((table.refreshed tick mac).sub (pgMacTablePart1 other)).entries.bind
          (fun entries => entries (pgMacTablePart2 other))).map DestAddresses.destination =
        ((table.sub (pgMacTablePart1 other)).entries.bind
          (fun entries => entries (pgMacTablePart2 other))).map
          DestAddresses.destination := by
    unfold MacTable.sub MacTable.refreshed SubTable.refreshed
    by_cases here : pgMacTablePart1 other = pgMacTablePart1 mac
    · rw [here]
      cases table.subs (pgMacTablePart1 mac) with
      | none => simp
      | some inner =>
        cases isEntries : inner.entries with
        | none => simp [isEntries]
        | some entries =>
          by_cases same : pgMacTablePart2 other = pgMacTablePart2 mac
          · rw [same]
            cases isEntry : entries (pgMacTablePart2 mac) <;>
              simp [isEntries, isEntry, DestAddresses.destination]
          · simp [isEntries, update_of_ne same]
    · simp [update_of_ne here]
  have mask : (table.refreshed tick mac).mask = table.mask := rfl
  unfold pgMacTableElemGet macTableGet
  dsimp only
  rw [masks, mask]
  split
  · rfl
  · split
    · rfl
    · exact entries

theorem touchEntry_handles (mac : Mac) :
    Spec (Handling start i j packetId pkt) (touchEntry i mac)
      (fun _ => Handling start i j packetId pkt) (fun _ _ => True) := by
  have read : Spec (Handling start i j packetId pkt) (readTable macToDst i) (fun table world =>
          Handling start i j packetId pkt world ∧ ∀ mac,
              (pgMacTableElemGet table mac).map DestAddresses.destination =
                (world.state.ports i).entryFor mac)
        (fun _ _ => True) := by
    refine .of_start (fun seen handling => ?_)
    refine (readTable_finds macToDst i seen (fun _ => trivial)).ending ?_
    rintro table world ⟨rfl, entries⟩
    refine ⟨handling, fun mac => ?_⟩
    rw [entryFor_of_alive handling.alive, entries]
    rfl
  refine .bind read (fun table => Spec.read (fun seen both => ?_))
  obtain ⟨handling, entries⟩ := both
  refine .modify ?_
  rintro world rfl
  have updated : update world.state.ports i { world.state.ports i with
            macToDst :=
              .live (table.refreshed world.state.vtepTick mac) } i =
        { world.state.ports i with macToDst := .live (table.refreshed world.state.vtepTick mac) } :=
    update_self ..
  refine ⟨handling.tmp, handling.packetId, handling.settings, handling.out, handling.others, ?_, ?_⟩
  · refine SameRoutes.trans ?_ handling.routes
    show SameRoutes (update world.state.ports i { world.state.ports i with
          macToDst := .live (table.refreshed world.state.vtepTick mac) } i) _
    rw [updated]
    refine ⟨rfl, rfl, fun other => ?_⟩
    rw [← entries other]
    refine (entryFor_of_alive ?_ other).trans
      (destination_refreshed table mac other world.state.vtepTick)
    exact handling.alive
  · show (update world.state.ports i { world.state.ports i with
          macToDst :=
            .live (table.refreshed world.state.vtepTick mac) } i).isDead _ =
      false
    rw [updated]
    exact handling.alive

theorem learnSource_handles (inner : Mbuf) :
    Spec (Handling start i j packetId pkt) (learnSource i inner)
      (fun _ => Handling start i j packetId pkt) (fun _ _ => True) := by
  refine .read (fun seen handling => ?_)
  split
  · exact .pure (fun _ same => same ▸ handling)
  rintro world rfl
  unfold doAddMac
  rw [setInTable_run]
  cases isSlot : knownMac.slot (world.state.ports i) with
  | absent | freed => exact trivial
  | live table =>
    simp only
    rcases macTableSet world.malloc table _ () with ⟨outcome, malloc⟩
    cases outcome with
    | stored after =>
      refine ⟨handling.tmp, handling.packetId, handling.settings,
        handling.out, handling.others, ?_, ?_⟩
      · refine SameRoutes.trans ?_ handling.routes
        unfold VtepWorld.withTable
        rw [ports_withPort_self]
        exact ⟨rfl, rfl, fun _ => rfl⟩
      · unfold VtepWorld.withTable
        rw [ports_withPort_self]
        exact handling.alive
    | raised after | fault => exact trivial

/-- The destination that stands for an entry, or for no entry. -/
def VtepPort.destinationBy (port : VtepPort version) (entry : Option (Mac × DestAddresses version))
    : Destination version :=
  match entry with
  | some (_, dst) => dst.destination
  | none => port.group

theorem selectDestination_handles (base : Nat) (inner : Mbuf)
    (entry : Option (Mac × DestAddresses version)) (len : BitVec 16) :
    Spec (Handling start i j packetId pkt) (selectDestination i j base inner entry len) (fun _ =>
        Handling start i j (nextPacketId version packetId) { pkt with
            buf :=
              outerAddresses start.state (nextPacketId version packetId)
                ((start.state.ports i).destinationBy entry) base len pkt.buf })
      (fun _ _ => True) := by
  cases entry with
  | some known =>
    obtain ⟨mac, dst⟩ := known
    have blind : UseBlind (Handling start i j packetId pkt) := fun _ _ handling => ⟨handling.tmp,
      handling.packetId, handling.settings, handling.out, handling.others, handling.routes,
      handling.alive⟩
    exact .bind (.bind (touchEntry_handles mac) (fun _ => noteUse_keeps blind i mac))
      (fun _ => writeOuter_handles base dst.destination len)
  | none =>
    refine .bind (learnSource_handles inner) (fun _ => ?_)
    refine .read (fun seen handling => ?_)
    rw [handling.routes.multicastIp]
    exact (writeOuter_handles base (start.state.ports i).group len).startingAt handling

/-- `vtep_header_prepend` puts all outer headers in front of a packet. -/
theorem vtepHeaderPrepend_handles (entry : Option (Mac × DestAddresses version)) :
    Spec (Handling start i j packetId pkt) (vtepHeaderPrepend i j entry) (fun ret world => 0 ≤ ret →
        headerLength version ≤ pkt.dataOff ∧ Handling start i j (nextPacketId version packetId)
            (outerPkt start.state (nextPacketId version packetId) (start.state.ports i).vni
              ((start.state.ports i).destinationBy entry) pkt) world)
      (fun _ _ => True) := by
  refine .read (fun seen handling => ?_)
  rw [handling.tmp, handling.routes.vni]
  dsimp only
  unfold rtePktmbufPrepend
  by_cases short : pkt.dataOff < headerLength version
  · rw [if_pos short]
    have failed : Spec (fun world => world = seen)
          (setError (noHeadroom version pkt) : VtepM ι version Unit)
          (fun _ _ => True) (fun _ _ => True) :=
      Spec.modify (fun _ _ => trivial)
    refine .bind failed (fun _ => ?_)
    exact .pure (fun _ _ returned => absurd returned (by decide))
  · rw [if_neg short]
    refine .bind ((writeTmp_handles _).startingAt handling) (fun _ => ?_)
    refine .bind (writeBytes_handles _ _) (fun _ => ?_)
    refine .bind (selectDestination_handles _ _ _ _) (fun _ => ?_)
    refine .bind (writeUdp_handles _ _ _) (fun _ => ?_)
    refine .read (fun written handling => ?_)
    rw [handling.tmp]
    refine .bind ((writeTmp_handles _).startingAt handling) (fun _ => ?_)
    exact .pure (fun _ handling _ => ⟨by omega, handling⟩)

end OnePacket

section Bursts

variable {start : VtepWorld ι version} {i : Nat}

variable {seen : VtepWorld ι version}

/-- The entry that is looked up for a packet gives the chosen destination. -/
theorem destinationOf_chosen (alive : (seen.state.ports i).isDead isMacToDstDead = false)
    (j : Nat) :
    Spec (fun world => world = seen) (destinationOf i j) (fun entry world =>
        world = seen ∧ (seen.state.ports i).destinationBy entry =
            (seen.state.ports i).chosen (seen.pkts j))
      (fun _ _ => True) := by
  refine .read (fun world same => ?_)
  subst same
  unfold VtepPort.chosen
  split
  · exact .pure (fun _ same => ⟨same, rfl⟩)
  rw [entryFor_of_alive alive]
  refine .bind (readTable_finds macToDst i world (fun _ => trivial)) (fun table => Spec.pure ?_)
  rintro after ⟨same, entries⟩
  refine ⟨same, ?_⟩
  have entry : (world.state.ports i).macToDst.find (macAt (world.pkts j).frame dAddr) =
        pgMacTableElemGet table (macAt (world.pkts j).frame dAddr) :=
    (entries _).symm
  rw [entry]
  cases pgMacTableElemGet table (macAt (world.pkts j).frame dAddr) <;> rfl

/-- Some packets of a burst into port `i` are encapsulated. -/
structure Encapsulating (start : VtepWorld ι version) (i : Nat) (done : List Nat)
    (world : VtepWorld ι version) : Prop where
  settings : world.state.settings = start.state.settings
  routes : SameRoutes (world.state.ports i) (start.state.ports i)
  alive : (world.state.ports i).isDead isMacToDstDead = false
  pending : ∀ j, j ∉ done → world.pkts j = start.pkts j
  made : ∀ j ∈ done, Encapsulates start.state (start.state.ports i) (start.pkts j)
        (world.state.pkts j)

/-- The packet that is encapsulated next. -/
theorem clonePkt_copies {stop : VtepStop → VtepWorld ι version → Prop}
    (seen : VtepWorld ι version) (j : Nat) :
    Spec (fun world => world = seen) (clonePkt j) (fun cloned world =>
        world.state = seen.state ∧ world.pkts = seen.pkts ∧
          ∀ tmp ref, cloned = some (tmp, ref) → CopyOf (seen.pkts j) tmp)
      stop := by
  refine .read (fun world same => ?_)
  subst same
  split
  · refine .pure ?_
    rintro _ rfl
    refine ⟨rfl, rfl, fun tmp ref isTmp => ?_⟩
    have isCopy := congrArg Prod.fst (Option.some.inj isTmp)
    exact .inl isCopy.symm
  · rintro state rfl
    refine ⟨rfl, rfl, fun tmp ref isTmp => ?_⟩
    obtain ⟨udata64, _, isCopy⟩ := Option.map_eq_some_iff.mp isTmp
    exact .inr ⟨udata64, (congrArg Prod.fst isCopy).symm⟩

variable {done : List Nat}

/-- Storing the packet that was just encapsulated. -/
theorem Encapsulating.stored {j : Nat} {packetId : BitVec 16} {copy pkt : Mbuf}
    (encapsulating : Encapsulating start i done seen) (fresh : j ∉ done)
    (isCopy : CopyOf (seen.pkts j) copy) (headroom : headerLength version ≤ copy.dataOff)
    (isPkt : pkt = outerPkt seen.state packetId (seen.state.ports i).vni ((seen.state.ports
        i).chosen (seen.pkts j)) copy) :
    Spec (Handling seen i j packetId pkt) (writePkt .out j pkt : VtepM ι version Unit)
      (fun _ => Encapsulating start i (j :: done)) (fun _ _ => True) := by
  have sameOff : copy.dataOff = (seen.pkts j).dataOff := by
    rcases isCopy with rfl | ⟨udata64, rfl⟩
    · rfl
    · rfl
  have made : Encapsulates start.state (start.state.ports i) (start.pkts j)
        pkt := by
    rw [← encapsulating.pending j fresh]
    exact Encapsulates.of_same ⟨packetId, copy, isCopy, sameOff ▸ headroom, isPkt⟩
      encapsulating.settings encapsulating.routes
  refine .modify (fun state handling => ?_)
  refine ⟨handling.settings.trans encapsulating.settings,
    handling.routes.trans encapsulating.routes, handling.alive,
    fun k other => ?_, fun k member => ?_⟩
  · obtain ⟨notHere, notDone⟩ := not_or.mp (mem_cons.not.mp other)
    show (if state.state.noCopy then
      update state.pkts j pkt else state.pkts) k = _
    have same : state.pkts k = start.pkts k :=
      (handling.others k notHere).trans (encapsulating.pending k notDone)
    split
    · rw [update_of_ne notHere]
      exact same
    · exact same
  · show Encapsulates _ _ _ (update state.state.pkts j pkt k)
    by_cases here : k = j
    · subst here
      rw [update_self]
      exact made
    · rw [update_of_ne here, handling.out]
      exact encapsulating.made k ((mem_cons.mp member).resolve_left here)

/-- `vtep_encapsulate` encapsulates every packet or fails. -/
theorem vtepEncapsulate_made {places : List Nat} (distinct : places.Nodup)
    (fresh : ∀ j ∈ places, j ∉ done) :
    Spec (Encapsulating start i done) (vtepEncapsulate i places) (fun ret world =>
        0 ≤ ret → Encapsulating start i (places.reverse ++ done) world)
      (fun _ _ => True) := by
  induction places generalizing done with
  | nil => exact .pure (fun _ encapsulating _ => encapsulating)
  | cons j rest ih =>
    obtain ⟨notLater, distinctRest⟩ := nodup_cons.mp distinct
    have freshHere := fresh j mem_cons_self
    have freshRest : ∀ k ∈ rest, k ∉ j :: done := by
      intro k member
      rw [mem_cons, not_or]
      exact ⟨fun here => notLater (here ▸ member), fresh k (mem_cons_of_mem j member)⟩
    refine .of_start (fun seen encapsulating => ?_)
    refine .bind (destinationOf_chosen encapsulating.alive j) (fun entry => ?_)
    refine .of_start (fun _ looked => ?_)
    obtain ⟨rfl, isChosen⟩ := looked
    refine .bind (clonePkt_copies _ j) (fun cloned => ?_)
    cases cloned with
    | none => exact .pure (fun _ _ returned => absurd returned (by decide))
    | some copy =>
      obtain ⟨tmp, ref⟩ := copy
      refine .of_start (fun copied isCopied => ?_)
      obtain ⟨sameState, samePkts, isCopies⟩ := isCopied
      have isCopy := isCopies tmp ref rfl
      rename_i seen
      have handling : Handling seen i j seen.state.packetId copied.tmp copied :=
        ⟨rfl, by rw [sameState], by rw [sameState], by rw [sameState], fun k _ => by rw [samePkts],
          by rw [sameState]; exact SameRoutes.refl _, by rw [sameState]; exact encapsulating.alive⟩
      refine .bind ((writeTmp_handles tmp).startingAt handling) (fun _ => ?_)
      refine .bind (vtepHeaderPrepend_handles entry) (fun ret => ?_)
      split
      · have failed : Spec (fun _ => True) (freeTmp ref : VtepM ι version Unit)
              (fun _ _ => True) (fun _ _ => True) :=
          Spec.modify (fun _ _ => trivial)
        refine .bind (failed.weaken (fun _ _ => trivial)
          (fun _ _ after => after) (fun _ _ stopped => stopped)) (fun _ => ?_)
        exact .pure (fun _ _ returned => absurd returned (by decide))
      · rename_i returned
        refine .read (fun written prepended => ?_)
        obtain ⟨headroom, handled⟩ := prepended (by omega)
        rw [isChosen] at handled
        rw [handled.tmp]
        refine .bind ((pointTo_handles ref).startingAt handled) (fun _ => ?_)
        refine .bind (encapsulating.stored freshHere isCopy headroom rfl) (fun _ => ?_)
        rw [reverse_cons, append_assoc]
        exact ih distinctRest freshRest

section

variable (start : VtepWorld ι version) (i : Nat)

/-- Making a dead `mac_to_dst` again keeps the routes of a port. -/
theorem fixMacToDst_routes :
    Spec (fun world => world = start) (fixTable macToDst isMacToDstDead i)
      (fun ret world => 0 ≤ ret → Encapsulating start i [] world)
      (fun _ _ => True) := by
  rintro world rfl
  rw [fixTable_run]
  by_cases dead : (world.state.ports i).isDead isMacToDstDead = true
  · rw [if_pos dead]
    rcases isMade : pgMacTableInit _ world.malloc with ⟨made, malloc⟩
    cases made with
    | none => exact fun returned => absurd returned (by decide)
    | some table =>
      intro _
      have isEmpty := (pgMacTableInit_eq_some (congrArg Prod.fst isMade)).2
      have alive : ((macToDst.put (world.state.ports i) (.live table)).flipped
            isMacToDstDead).isDead isMacToDstDead = false := by
        rw [isDead_macToDst] at dead ⊢
        show ((world.state.ports i).deadTables ^^^ isMacToDstDead).getLsbD 0 = false
        rw [(getLsbD_xor_isMacToDstDead _).1, dead]
        rfl
      refine ⟨rfl, ?_, ?_, fun _ _ => rfl, by simp⟩
      · rw [ports_withPort_self]
        refine ⟨rfl, rfl, fun mac => ?_⟩
        rw [entryFor_of_alive alive]
        unfold VtepPort.entryFor
        rw [if_pos dead]
        show (table.contents (macKey mac)).map _ = none
        rw [isEmpty]
        rfl
      · rw [ports_withPort_self]
        exact alive
  · rw [if_neg dead]
    exact fun _ => ⟨rfl, SameRoutes.refl _, by simpa using dead, fun _ _ => rfl, by simp⟩

/-- Making a dead `known_mac` again keeps the routes of a port. -/
theorem fixKnownMac_routes :
    Spec (Encapsulating start i []) (fixTable knownMac isKnownMacDead i)
      (fun ret world => 0 ≤ ret → Encapsulating start i [] world)
      (fun _ _ => True) := by
  intro world encapsulating
  rw [fixTable_run]
  by_cases dead : (world.state.ports i).isDead isKnownMacDead = true
  · rw [if_pos dead]
    rcases isMade : pgMacTableInit _ world.malloc with ⟨made, malloc⟩
    cases made with
    | none => exact fun returned => absurd returned (by decide)
    | some table =>
      intro _
      have sameFlag : ((knownMac.put (world.state.ports i) (.live table)).flipped
              isKnownMacDead).isDead isMacToDstDead =
            (world.state.ports i).isDead isMacToDstDead := by
        rw [isDead_macToDst, isDead_macToDst]
        exact (getLsbD_xor_isKnownMacDead _).1
      refine ⟨encapsulating.settings, ?_, ?_, encapsulating.pending, encapsulating.made⟩
      · refine SameRoutes.trans ?_ encapsulating.routes
        rw [ports_withPort_self]
        refine ⟨rfl, rfl, fun mac => ?_⟩
        unfold VtepPort.entryFor
        rw [sameFlag]
        rfl
      · rw [ports_withPort_self, sameFlag]
        exact encapsulating.alive
  · rw [if_neg dead]
    exact fun _ => encapsulating

/-- Before its packets are handled, a burst makes dead tables again. -/
theorem fixIfDead_routes :
    Spec (fun world => world = start) (fixIfDead i)
      (fun ret world => 0 ≤ ret → Encapsulating start i [] world)
      (fun _ _ => True) := by
  refine .read (fun seen same => ?_)
  subst same
  split
  · refine .bind (fixMacToDst_routes _ i) (fun ret => ?_)
    split
    · exact .pure (fun _ _ returned => absurd returned (by decide))
    · rename_i returned
      exact (fixKnownMac_routes _ i).weaken
        (fun _ fixed => fixed (by omega)) (fun _ _ after => after) (fun _ _ stopped => stopped)
  · rename_i alive
    refine .pure ?_
    rintro world rfl _
    rw [areMacTablesDead_eq, Bool.or_eq_true, not_or] at alive
    exact ⟨rfl, SameRoutes.refl _, by simpa using alive.1, fun _ _ => rfl, by simp⟩

end

variable {brick : Brick ι} {fromSide : Side} {pktsMask : BitVec 64}

/-- A call hands over what a port of a vtep makes of each frame of a burst. -/
def CarriesBurst (start : VtepWorld ι version) (i : Nat) (pktsMask : BitVec 64)
    (delivery : Delivery ι) : Prop :=
  ∀ j, pktsMask.getLsbD j = true → Encapsulates start.state (start.state.ports i) (start.pkts j)
      (delivery.pkts j)

theorem encapsulateBurst_carries (noCalls : start.deliveries = []) :
    Spec (fun world => world = start) (encapsulateBurst brick fromSide i pktsMask)
      (fun _ => Delivers (CarriesBurst start i pktsMask))
      (fun _ => Delivers (CarriesBurst start i pktsMask)) := by
  have none : Delivers (CarriesBurst start i pktsMask) start := by
    intro delivery member
    rw [noCalls] at member
    cases member
  refine Spec.weaken (Spec.bind
    ((fixIfDead_routes start i).keeping (fixIfDead_keeps delivers_tableBlind i))
    (fun fixed => ?_)) (fun _ same => ⟨same, same ▸ none⟩)
    (fun _ _ after => after) (fun _ _ stopped => stopped)
  split
  · exact .pure (fun _ post => post.2)
  rename_i returned
  refine .read (fun seen post => ?_)
  split
  · exact .pure (fun _ same => same ▸ post.2)
  refine .bind (((vtepEncapsulate_made (lowBits_nodup pktsMask) (fun _ _ => by simp)).keeping
        ((encapRule_delivers i).vtepEncapsulate _)).startingAt
          ⟨post.1 (by omega), post.2⟩) (fun ret => ?_)
  split
  · exact .pure (fun _ after => after.2)
  rename_i encapsulated
  refine .read (fun written after => ?_)
  have made := (after.1 (by omega)).made
  refine .bind (Spec.startingAt (forwardEdges_delivers ?_ _) after.2) (fun _ => ?_)
  · intro index send _ j isIn
    exact made j (by simpa using isIn)
  · exact .bind (freeOutPkts_keeps delivers_cloneBlind _)
      (fun _ => Spec.pure (fun _ after => after))

theorem toVtep_carries (noCalls : start.deliveries = []) :
    Spec (fun world => world = start) (toVtep brick fromSide i pktsMask)
      (fun _ => Delivers (CarriesBurst start i pktsMask))
      (fun _ => Delivers (CarriesBurst start i pktsMask)) := by
  refine .read (fun seen same => ?_)
  subst same
  split
  · exact encapsulateBurst_carries noCalls
  refine Spec.tryCatch (encapsulateBurst_carries noCalls) (fun stopped => ?_)
  cases stopped with
  | raised =>
    refine .bind (dropTable_keeps delivers_tableBlind _ _ _) (fun _ => ?_)
    refine .bind (freeOutPkts_keeps delivers_cloneBlind _) (fun _ => ?_)
    exact .bind (setError_keeps delivers_packetBlind _) (fun _ => Spec.pure (fun _ after => after))
  | freedTable | aborted reason => exact .throw (fun _ holds => holds)

/-- The calls of a burst into a port carry the encapsulated frames. -/
theorem vtepBurst_carries {world : VtepWorld ι version} (noCalls : world.deliveries = [])
    (inner : fromSide ≠ world.state.output) (i : Nat) :
    Delivers (CarriesBurst world.ticked i pktsMask)
      (finalState (vtepBurst brick fromSide i pktsMask world)) := by
  rw [vtepBurst_eq, if_neg inner]
  exact Spec.finalState (toVtep_carries (show world.ticked.deliveries = [] from noCalls)) rfl

end Bursts

end PacketGraph
