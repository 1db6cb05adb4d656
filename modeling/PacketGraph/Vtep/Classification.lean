import PacketGraph.Vtep.Rounds
import PacketGraph.Vtep.Safety

namespace PacketGraph

open Bytes BitScan Effects

/-!
# Classifying packets twice

A hub hands the same mbufs to all its neighbours, so that two vteps may
classify one burst.  Checking a checksum overwrites it in the packet by zero,
which stands for a packet without a checksum: a packet that the first vtep
refuses for its checksum is accepted by the second one.
-/

variable {ι : Type} {version : IpVersion}

/-- `classify_pkts` on a whole burst. -/
def classifyBurst (udpDstPortBe : BitVec 16) (pktsMask : BitVec 64) : VtepM ι version Classes :=
  classifyPkts udpDstPortBe (lowBits pktsMask)
    { multicastMask := 0#64, computedMask := 0#64 }

/-- A packet has headers of VXLAN and a UDP checksum that is to be checked. -/
def CarriesChecksum (version : IpVersion) (udpDstPortBe : BitVec 16) (pkt : Mbuf) : Prop :=
  isVxlan version udpDstPortBe pkt = true ∧ dgramCksum version pkt.buf (pgUtilsGetL3 pkt) ≠ 0#16

theorem dgramCksum_zeroCksums (version : IpVersion) (buf : Memory) (ip : Nat) :
    dgramCksum version (zeroCksums version buf ip) ip = 0#16 := by
  have zeros : [0#8, 0#8] = [] ++ (bytesOf 2 0#16 ++ []) := by decide
  unfold dgramCksum zeroCksums
  dsimp only
  rw [← Nat.add_zero (udpOf version ip + 6)]
  exact load_store_field zeros rfl

variable {udpDstPortBe : BitVec 16} {pkt : Mbuf}

/-- A packet whose checksum is not checked stays as it is. -/
theorem classifyPkt_of_not_carries (unchecked : ¬ CarriesChecksum version udpDstPortBe pkt) :
    (classifyPkt version udpDstPortBe pkt).1 = pkt := by
  unfold classifyPkt
  dsimp only
  split
  · rfl
  · rename_i vxlan
    rw [if_pos]
    by_contra carried
    exact unchecked ⟨not_not.mp vxlan, carried⟩

/-- A checksum that is checked is overwritten. -/
theorem buf_classifyPkt_of_carries (carries : CarriesChecksum version udpDstPortBe pkt) :
    (classifyPkt version udpDstPortBe pkt).1.buf =
      zeroCksums version pkt.buf (pgUtilsGetL3 pkt) := by
  obtain ⟨vxlan, carried⟩ := carries
  unfold classifyPkt
  dsimp only
  rw [if_neg (not_not.mpr vxlan), if_neg carried]
  split <;> rfl

/-- The bytes of a packet are kept exactly if no checksum is checked. -/
theorem buf_classifyPkt_iff (udpDstPortBe : BitVec 16) (pkt : Mbuf) :
    (classifyPkt version udpDstPortBe pkt).1.buf = pkt.buf ↔
      ¬ CarriesChecksum version udpDstPortBe pkt := by
  constructor
  · intro kept carries
    have zero := dgramCksum_zeroCksums version pkt.buf (pgUtilsGetL3 pkt)
    rw [← buf_classifyPkt_of_carries carries, kept] at zero
    exact carries.2 zero
  · intro unchecked
    rw [classifyPkt_of_not_carries unchecked]

/--
Classifying a burst twice gives the same masks and keeps all bytes exactly if
no VXLAN packet of the burst carries a UDP checksum.
-/
theorem classify_twice_iff (udpDstPortBe : BitVec 16) (pktsMask : BitVec 64)
    (world : VtepWorld ι version) :
    (∃ classes first second, classifyBurst udpDstPortBe pktsMask world = .ok classes first ∧
        classifyBurst udpDstPortBe pktsMask first = .ok classes second ∧
        ∀ j, (first.pkts j).buf = (world.pkts j).buf ∧ (second.pkts j).buf = (world.pkts j).buf) ↔
      ∀ j, pktsMask.getLsbD j = true → ¬ CarriesChecksum version udpDstPortBe (world.pkts j) := by
  obtain ⟨classes, ran, _⟩ :=
    classifyPkts_run udpDstPortBe (lowBits_nodup pktsMask)
      { multicastMask := 0#64, computedMask := 0#64 } world
  constructor
  · rintro ⟨_, first, second, isFirst, _, kept⟩ j inBurst
    have isWorld := ran.symm.trans isFirst
    cases isWorld
    have isKept := (kept j).1
    dsimp only [classifiedPkts] at isKept
    rw [if_pos (mem_lowBits.mpr inBurst)] at isKept
    exact (buf_classifyPkt_iff _ _).mp isKept
  · intro unchecked
    have same : classifiedPkts version udpDstPortBe world.pkts (lowBits pktsMask) = world.pkts := by
      funext j
      unfold classifiedPkts
      split
      · rename_i member
        exact classifyPkt_of_not_carries (unchecked j (mem_lowBits.mp member))
      · rfl
    rw [same] at ran
    exact ⟨classes, world, world, ran, ran, fun _ => ⟨rfl, rfl⟩⟩

/--
A VXLAN packet of 64 bytes to UDP port 4789 with a checksum that does not
match.
-/
def corruptedVxlan : Mbuf :=
  { Mbuf.zero with
    buf := fun place => match place with
      | 12 => 0x08#8
      | 14 => 0x45#8
      | 17 => 50#8
      | 22 => 64#8
      | 23 => 17#8
      | 36 => 0x12#8
      | 37 => 0xB5#8
      | 39 => 30#8
      | 40 => 1#8
      | 42 => 8#8
      | _ => 0#8
    l2Len := 14
    dataLen := 64
    pktLen := 64 }

/-- The masks that a run of `classify_pkts` gives. -/
def classesOf (result : EStateM.Result VtepStop (VtepWorld Bool .v4) Classes) : Option Classes :=
  match result with
  | .ok classes _ => some classes
  | .error _ _ => none

/-- A vtep that is handed the corrupted packet. -/
def corruptedWorld : VtepWorld Bool .v4 :=
  attachedVtep.world calmSurroundings (fun _ => corruptedVxlan)

/-- A corrupted packet is refused, and accepted when it comes again. -/
theorem corrupted_packet_accepted_later :
    classesOf (classifyBurst 0xB512#16 1#64 corruptedWorld) =
        some { multicastMask := 0#64, computedMask := 0#64 } ∧
      classesOf (classifyBurst 0xB512#16 1#64
          (finalState (classifyBurst 0xB512#16 1#64 corruptedWorld))) =
        some { multicastMask := 0#64, computedMask := 1#64 } := by
  decide +kernel

end PacketGraph
