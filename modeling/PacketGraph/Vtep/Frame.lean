import PacketGraph.Vtep.Ops
import PacketGraph.Lib.Effects

namespace PacketGraph

open Bytes BitScan Effects

/-!
# What handling packets leaves alone

Most of what a vtep does to a burst changes packets only.  A property that
does not look at packets is kept by all of these steps.
-/

variable {ι : Type} {version : IpVersion}

/-- The world after the tick that a burst starts with. -/
def VtepWorld.ticked (world : VtepWorld ι version) : VtepWorld ι version :=
  { world with state := { world.state with vtepTick := world.state.vtepTick + 1#64 } }

/-- A burst goes by the side it comes from. -/
theorem vtepBurst_eq (brick : Brick ι) (fromSide : Side) (edgeIndex : Nat)
    (pktsMask : BitVec 64) (world : VtepWorld ι version) :
    vtepBurst brick fromSide edgeIndex pktsMask world = (if fromSide = world.state.output then
        fromVtep brick fromSide pktsMask
      else
        toVtep brick fromSide edgeIndex pktsMask : VtepM ι version Int)
        world.ticked :=
  rfl

/-- A world without its packets, its packet id and its error. -/
def VtepWorld.vital (world : VtepWorld ι version) : VtepWorld ι version :=
  { world with
    pkts := fun _ => Mbuf.zero
    tmp := Mbuf.zero
    errp := none
    state :=
      { world.state with
        pkts := fun _ => Mbuf.zero
        packetId := 0#16 } }

/-- A world without what is known of its clones either. -/
def VtepWorld.core (world : VtepWorld ι version) : VtepWorld ι version :=
  { world.vital with
    clones := fun _ => none
    back := fun _ _ => false
    refs := PktRef.left
    made := 0
    freed := [] }

/-- A property of worlds that does not depend on what was learnt or sent to. -/
def UseBlind (property : VtepWorld ι version → Prop) : Prop :=
  ∀ world used, property world → property { world with used := used }

/-- Recording a use changes nothing but the record. -/
theorem noteUse_keeps {property : VtepWorld ι version → Prop}
    {stop : VtepStop → VtepWorld ι version → Prop} (blind : UseBlind property) (i : Nat)
    (mac : Mac) : Keeps property stop (noteUse i mac) :=
  Keeps.modify (fun world holds => blind world _ holds)

/-- A property of worlds that does not depend on their packets. -/
def PacketBlind (property : VtepWorld ι version → Prop) : Prop :=
  ∀ world after, after.vital = world.vital → property world → property after

/-- A property of worlds that does not depend on packets and their clones. -/
def CloneBlind (property : VtepWorld ι version → Prop) : Prop :=
  ∀ world after, after.core = world.core → property world → property after

/-- What does not depend on clones does not depend on packets. -/
theorem CloneBlind.packetBlind {property : VtepWorld ι version → Prop}
    (blind : CloneBlind property) : PacketBlind property := by
  intro world after same
  refine blind world after ?_
  unfold VtepWorld.core
  rw [same]

section Packets

variable {property : VtepWorld ι version → Prop} {stop : VtepStop → VtepWorld ι version → Prop}

section

variable (blind : PacketBlind property)

include blind

/-- A change of packets only keeps a property that is blind to them. -/
theorem PacketBlind.modify {change : VtepWorld ι version → VtepWorld ι version}
    (packetsOnly : ∀ world, (change world).vital = world.vital) :
    Keeps property stop (modify change : EStateM VtepStop (VtepWorld ι version) PUnit) :=
  Keeps.modify (fun world holds => blind world _ (packetsOnly world) holds)

/-- Setting the error changes no more than the error. -/
theorem setError_keeps (error : PgError) : Keeps property stop (setError error) :=
  blind.modify (fun _ => rfl)

/-- Writing a packet changes packets only. -/
theorem writePkt_keeps (array : PktArray) (j : Nat) (pkt : Mbuf) :
    Keeps property stop (writePkt array j pkt) := by
  cases array with
  | burst | out => exact blind.modify (fun _ => rfl)

/-- The loop of `classify_pkts` changes packets only. -/
theorem classifyPkts_keeps (udpDstPortBe : BitVec 16) (places : List Nat) (classes : Classes) :
    Keeps property stop (classifyPkts udpDstPortBe places classes) := by
  induction places generalizing classes with
  | nil => exact .pure _
  | cons i rest ih =>
    refine .read (fun world _ => ?_)
    exact .bind (writePkt_keeps blind _ _ _) (fun _ => ih _)

/-- The loop of `check_vni_pkts` changes packets only. -/
theorem checkVniPkts_keeps (hdrs : Nat → Nat) (i : Nat) (places : List Nat) (vniMask : BitVec 64) :
    Keeps property stop (checkVniPkts hdrs i places vniMask) := by
  induction places generalizing vniMask with
  | nil => exact .pure _
  | cons j rest ih =>
    refine .read (fun world _ => ?_)
    dsimp only
    split
    · exact .bind (writePkt_keeps blind _ _ _) (fun _ => ih _)
    · exact ih _

/-- Restoring metadata changes packets only. -/
theorem restoreMetadata_keeps (array : PktArray) (places : List Nat)
    : Keeps property stop (restoreMetadata array places) := by
  induction places with
  | nil => exact .pure _
  | cons j rest ih =>
    refine .read (fun world _ => ?_)
    exact .bind (writePkt_keeps blind _ _ _) (fun _ => ih)

theorem writeTmp_keeps (j : Nat) (pkt : Mbuf) : Keeps property stop (writeTmp j pkt) :=
  blind.modify (fun _ => rfl)

theorem writeBytes_keeps (j address : Nat) (bytes : List (BitVec 8))
    : Keeps property stop (writeBytes j address bytes) :=
  Keeps.read (fun _ _ => writeTmp_keeps blind _ _)

/-- Writing the outer headers changes a packet and the packet id. -/
theorem writeOuter_keeps (j base : Nat) (dstMac : BitVec 48) (dstIp : Ip version) (len : BitVec 16)
    : Keeps property stop (writeOuter j base dstMac dstIp len) := by
  refine .read (fun world _ => ?_)
  refine .bind (writeBytes_keeps blind _ _ _) (fun _ => ?_)
  refine .bind (Keeps.bind (blind.modify (fun _ => rfl)) (fun _ => ?_))
    (fun _ => writeBytes_keeps blind _ _ _)
  exact .read (fun _ _ => Keeps.pure _)

theorem writeUdp_keeps (j base : Nat) (len seed : BitVec 16) :
    Keeps property stop (writeUdp j base len seed) := by
  refine .read (fun world _ => ?_)
  refine .bind (writeBytes_keeps blind _ _ _) (fun _ => ?_)
  split
  · exact .read (fun _ _ => writeBytes_keeps blind _ _ _)
  · exact .pure _

end

end Packets

section Clones

variable {property : VtepWorld ι version → Prop} {stop : VtepStop → VtepWorld ι version → Prop}

section

variable (blind : CloneBlind property)

include blind

/-- A change of clones only keeps a property that is blind to them. -/
theorem CloneBlind.modify {change : VtepWorld ι version → VtepWorld ι version}
    (clonesOnly : ∀ world, (change world).core = world.core) :
    Keeps property stop (modify change : EStateM VtepStop (VtepWorld ι version) PUnit) :=
  Keeps.modify (fun world holds => blind world _ (clonesOnly world) holds)

/-- A clone is made apart from everything else. -/
theorem clonePkt_keeps (j : Nat) : Keeps property stop (clonePkt j) := by
  refine .read (fun world _ => ?_)
  split
  · exact .pure _
  · exact .bind (blind.modify (fun _ => rfl)) (fun _ => Keeps.pure _)

theorem pointTo_keeps (j : Nat) (ref : PktRef) : Keeps property stop (pointTo j ref) :=
  blind.modify (fun _ => rfl)

theorem freeTmp_keeps (ref : PktRef) : Keeps property stop (freeTmp ref) := by
  refine blind.modify (fun world => ?_)
  split <;> rfl

/-- Freeing the outgoing packets changes the clones only. -/
theorem freeOutPkts_keeps (pktsMask : BitVec 64) : Keeps property stop (freeOutPkts pktsMask) := by
  refine blind.modify (fun world => ?_)
  split <;> rfl

/-- The loop of `check_and_clone_vni_pkts` changes packets and clones only. -/
theorem checkAndCloneVniPkts_keeps (hdrs : Nat → Nat) (i : Nat) (places : List Nat)
    (vniMask : BitVec 64) : Keeps property stop (checkAndCloneVniPkts hdrs i places vniMask) := by
  induction places generalizing vniMask with
  | nil => exact .pure _
  | cons j rest ih =>
    refine .read (fun world _ => ?_)
    split
    · refine .bind (clonePkt_keeps blind j) (fun cloned => ?_)
      cases cloned with
      | none => exact .pure _
      | some copy =>
        refine .bind (pointTo_keeps blind _ _) (fun _ => ?_)
        refine .bind (writePkt_keeps blind.packetBlind _ _ _) (fun _ => ?_)
        split
        · exact .pure _
        · exact .bind (writePkt_keeps blind.packetBlind _ _ _) (fun _ => ih _)
    · exact ih _

end

end Clones

end PacketGraph
