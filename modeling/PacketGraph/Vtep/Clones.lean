import PacketGraph.Vtep.Rounds
import PacketGraph.Vtep.Destination

namespace PacketGraph

open BitScan Bytes Effects Function List TransitionSystem

/-!
# The clones of a burst

Without `PG_VTEP_NO_COPY` a vtep works on clones of the packets of a burst,
and has to free them before the burst is over.  A clone that was made is held
by a local variable, by a place of `state->pkts`, or was freed.

All clones are freed when no step fails between the first clone and the last
packet, whatever the neighbours answer.  When a clone is refused, a packet is
too short or lacks headroom, or memory for a MAC is missing, the clones of the
packets before it are left in `state->pkts`.
-/

variable {ι : Type} {version : IpVersion}

section Ledger

/-- All clones that were made. -/
def VtepWorld.clonesMade (world : VtepWorld ι version) : List PktRef :=
  (List.range world.made).map PktRef.clone

/-- Every clone was freed exactly once, and nothing else was freed. -/
def Settled (world : VtepWorld ι version) : Prop :=
  world.freed.Perm world.clonesMade

instance decidableSettled (world : VtepWorld ι version) : Decidable (Settled world) :=
  inferInstanceAs (Decidable (List.Perm _ _))

/--
Every clone of given packets was freed, is one of some loose ones, or is held by
one of some places of `state->pkts`, which no neighbour overwrites.  Every clone
that is asked for is made.
-/
structure Holding (given : Nat → Mbuf) (loose : List PktRef) (places : List Nat)
    (world : VtepWorld ι version) : Prop where
  copies : world.state.noCopy = false
  alone : ∀ call place, world.back call place = false
  granted : ∀ call, (world.clones call).isSome = true
  pkts : world.pkts = given
  held : (world.freed ++ loose ++ places.map world.refs).Perm world.clonesMade

variable {given : Nat → Mbuf} {loose : List PktRef} {places : List Nat}
  {stop : VtepStop → VtepWorld ι version → Prop} {world : VtepWorld ι version}

/-- Where no clone is held all of them were freed. -/
theorem Holding.settled (holding : Holding given [] [] world) : Settled world := by
  have held := holding.held
  rw [append_nil, map_nil, append_nil] at held
  exact held

/-- The places that hold clones may be listed in any order. -/
theorem Holding.listed {others : List Nat} (holding : Holding given loose places world)
    (perm : others.Perm places) : Holding given loose others world :=
  { holding with held := ((perm.map world.refs).append_left _).trans holding.held }

/-- The clones do not depend on tables. -/
theorem holding_tableBlind :
    TableBlind (Holding given loose places : VtepWorld ι version → Prop) := by
  intro world after same holding
  have tableless : Holding given loose places world.tableless :=
    ⟨holding.copies, holding.alone, holding.granted, holding.pkts, holding.held⟩
  rw [← same] at tableless
  exact ⟨tableless.copies, tableless.alone, tableless.granted, tableless.pkts, tableless.held⟩

/-- The clones stay where they are when only copies are written to. -/
theorem Holding.rewritten {after : VtepWorld ι version} (holding : Holding given loose places world)
    (same : after.vital = world.vital) (samePkts : after.pkts = world.pkts) :
    Holding given loose places after := by
  have vital : Holding (fun _ => Mbuf.zero) loose places world.vital :=
    ⟨holding.copies, holding.alone, holding.granted, rfl, holding.held⟩
  rw [← same] at vital
  exact ⟨vital.copies, vital.alone, vital.granted, samePkts.trans holding.pkts, vital.held⟩

/-- A clone is made and loose at first. -/
theorem clonePkt_holding (j : Nat) :
    Spec (Holding given [] places) (clonePkt j : VtepM ι version _)
      (fun cloned world => ∃ udata64 ref,
        cloned = some (rtePktmbufClone (given j) udata64, ref) ∧
        Holding given [ref] places world) stop := by
  refine .read (fun seen holding => ?_)
  rw [if_neg (by simp [holding.copies])]
  obtain ⟨udata64, isClone⟩ := Option.isSome_iff_exists.mp (holding.granted 0)
  rw [isClone, holding.pkts]
  refine .bind (.modify (fun world same => ?_))
    (fun _ => .pure (fun _ lent => ⟨udata64, .clone seen.made, rfl, lent⟩))
  subst same
  refine ⟨holding.copies, holding.alone, fun call => holding.granted _, holding.pkts, ?_⟩
  have held := holding.held
  rw [append_nil] at held
  unfold VtepWorld.clonesMade
  dsimp only
  rw [isClone, Option.isSome_some, if_pos rfl, range_succ, map_append, map_singleton, append_assoc]
  refine (perm_append_comm.append_left _).trans ?_
  rw [← append_assoc]
  exact held.append_right _

/-- A place that held no clone takes a loose one. -/
theorem pointTo_holding {j : Nat} {ref : PktRef} (free : j ∉ places) :
    Spec (Holding given [ref] places) (pointTo j ref : VtepM ι version Unit)
      (fun _ => Holding given [] (j :: places)) stop := by
  refine .modify (fun world holding => ?_)
  refine ⟨holding.copies, holding.alone, holding.granted, holding.pkts, ?_⟩
  have others : places.map (update world.refs j ref) = places.map world.refs := by
    refine map_congr_left (fun k member => ?_)
    have other : k ≠ j := fun same => free (same ▸ member)
    exact update_of_ne other _ _
  show (world.freed ++ [] ++ (j :: places).map (update world.refs j ref)).Perm _
  rw [map_cons, update_self, others, append_nil]
  have held := holding.held
  rw [append_assoc, singleton_append] at held
  exact held

/-- Freeing the clones of all places that hold one. -/
theorem freeOutPkts_holding (pktsMask : BitVec 64) :
    Spec (Holding given [] (lowBits pktsMask)) (freeOutPkts pktsMask : VtepM ι version Unit)
      (fun _ => Holding given [] []) stop := by
  refine .modify (fun world holding => ?_)
  rw [if_neg (by simp [holding.copies])]
  refine ⟨holding.copies, holding.alone, holding.granted, holding.pkts, ?_⟩
  have held := holding.held
  rw [append_nil] at held
  show (world.freed ++ (lowBits pktsMask).map world.refs ++ [] ++ []).Perm _
  rw [append_nil, append_nil]
  exact held

/-- A call that is not answered by a burst leaves all clones alone. -/
theorem burstTo_holding (call : Option (Delivery ι)) :
    Keeps (Holding given loose places) stop (burstTo call : VtepM ι version Int) := by
  refine burstTo_keeps (fun delivery world _ holding => ?_)
  have untouched : (world.called delivery).refs = world.refs := by
    funext place
    exact if_neg (by simp [holding.alone])
  refine ⟨holding.copies, fun call place => holding.alone (1 + call) place, holding.granted,
    holding.pkts, ?_⟩
  rw [untouched]
  exact holding.held

end Ledger

section Copies

variable {given : Nat → Mbuf} {loose : List PktRef} {places : List Nat}
  {stop : VtepStop → VtepWorld ι version → Prop}

/-- Writing to the packet that is encapsulated. -/
theorem writeTmp_holding (j : Nat) (pkt : Mbuf) :
    Keeps (Holding given loose places : VtepWorld ι version → Prop) stop (writeTmp j pkt) :=
  Keeps.modify (fun _ holding => holding.rewritten rfl (if_neg (by simp [holding.copies])))

/-- Writing bytes of the packet that is encapsulated. -/
theorem writeBytes_holding (j address : Nat) (bytes : List (BitVec 8)) :
    Keeps (Holding given loose places : VtepWorld ι version → Prop) stop
      (writeBytes j address bytes) :=
  Keeps.read (fun _ _ => writeTmp_holding _ _)

/-- Writing the outer Ethernet and IP headers. -/
theorem writeOuter_holding (j base : Nat) (dstMac : BitVec 48) (dstIp : Ip version)
    (len : BitVec 16) :
    Keeps (Holding given loose places : VtepWorld ι version → Prop) stop
      (writeOuter j base dstMac dstIp len) := by
  refine .read (fun world _ => ?_)
  refine .bind (writeBytes_holding _ _ _) (fun _ => ?_)
  refine .bind (Keeps.bind (Keeps.modify (fun _ holding => holding.rewritten rfl rfl))
    (fun _ => ?_)) (fun _ => writeBytes_holding _ _ _)
  exact .read (fun _ _ => Keeps.pure _)

/-- Writing the outer UDP header. -/
theorem writeUdp_holding (j base : Nat) (len seed : BitVec 16) :
    Keeps (Holding given loose places : VtepWorld ι version → Prop) stop
      (writeUdp j base len seed) := by
  refine .read (fun world _ => ?_)
  refine .bind (writeBytes_holding _ _ _) (fun _ => ?_)
  split
  · exact .read (fun _ _ => writeBytes_holding _ _ _)
  · exact .pure _

/-- Writing to an outgoing packet. -/
theorem writePkt_holding (j : Nat) (pkt : Mbuf) :
    Keeps (Holding given loose places : VtepWorld ι version → Prop) stop (writePkt .out j pkt) :=
  Keeps.modify (fun _ holding => holding.rewritten rfl (if_neg (by simp [holding.copies])))

/-- Restoring the metadata of outgoing packets. -/
theorem restoreMetadata_holding (indices : List Nat) :
    Keeps (Holding given loose places : VtepWorld ι version → Prop) stop
      (restoreMetadata .out indices) := by
  induction indices with
  | nil => exact .pure _
  | cons j rest ih => exact .read (fun _ _ => .bind (writePkt_holding _ _) (fun _ => ih))

end Copies

section Encapsulation

variable {given : Nat → Mbuf} {loose : List PktRef} {places done : List Nat} {i : Nat}

/-- What is written to the outer headers, after the source was learnt or the entry refreshed. -/
theorem selectDestination_holding (i j base : Nat) (inner : Mbuf)
    (entry : Option (Mac × DestAddresses version)) (len : BitVec 16) :
    Keeps (Holding given loose places : VtepWorld ι version → Prop) (fun _ _ => True)
      (selectDestination i j base inner entry len) := by
  cases entry with
  | some known =>
    refine .bind (Spec.ifReturned (useEntry_keeps holding_tableBlind _ _)) (fun _ => ?_)
    exact writeOuter_holding _ _ _ _ _
  | none =>
    refine .bind (Spec.ifReturned (learnSource_keeps holding_tableBlind _ _)) (fun _ => ?_)
    exact .read (fun _ _ => writeOuter_holding _ _ _ _ _)

/-- `vtep_header_prepend` accepts a packet with room for the headers. -/
theorem vtepHeaderPrepend_holding {inner : Mbuf} (room : headerLength version ≤ inner.dataOff)
    (j : Nat) (entry : Option (Mac × DestAddresses version)) :
    Spec (fun world => Holding given loose places world ∧ world.tmp = inner)
      (vtepHeaderPrepend i j entry : VtepM ι version Int)
      (fun ret world => ret = 0 ∧ Holding given loose places world) (fun _ _ => True) := by
  refine .read (fun seen both => ?_)
  obtain ⟨holding, rfl⟩ := both
  dsimp only
  unfold rtePktmbufPrepend
  rw [if_neg (by omega)]
  refine .bind (Spec.startingAt (writeTmp_holding _ _) holding) (fun _ => ?_)
  refine .bind (writeBytes_holding _ _ _) (fun _ => ?_)
  refine .bind (selectDestination_holding _ _ _ _ _ _) (fun _ => ?_)
  refine .bind (writeUdp_holding _ _ _ _) (fun _ => .read (fun _ holding => ?_))
  refine .bind (Spec.startingAt (writeTmp_holding _ _) holding) (fun _ => ?_)
  exact .pure (fun _ holding => ⟨rfl, holding⟩)

/-- Every frame with room for the headers is encapsulated, and a place holds its clone. -/
theorem vtepEncapsulate_holding (distinct : places.Nodup) (fresh : ∀ j ∈ places, j ∉ done)
    (room : ∀ j ∈ places, headerLength version ≤ (given j).dataOff) :
    Spec (Holding given [] done) (vtepEncapsulate i places : VtepM ι version Int)
      (fun ret world => 0 ≤ ret ∧ Holding given [] (places.reverse ++ done) world)
      (fun _ _ => True) := by
  -- `done` lists the places that hold a clone when the rest of the packets is begun.
  induction places generalizing done with
  | nil => exact .pure (fun _ holding => ⟨le_rfl, holding⟩)
  | cons j rest ih =>
    obtain ⟨notLater, distinctRest⟩ := nodup_cons.mp distinct
    refine .bind (Spec.ifReturned (destinationOf_keeps i j)) (fun entry => ?_)
    refine .bind (clonePkt_holding j) (fun cloned => ?_)
    refine .of_start (fun world made => ?_)
    obtain ⟨udata64, ref, rfl, holding⟩ := made
    have writes : Spec (fun state => state = world)
          (writeTmp j (rtePktmbufClone (given j) udata64))
          (fun _ world => Holding given [ref] done world ∧
            world.tmp = rtePktmbufClone (given j) udata64) (fun _ _ => True) := by
      refine .modify (fun state same => ⟨?_, rfl⟩)
      subst same
      exact holding.rewritten rfl (if_neg (by simp [holding.copies]))
    have roomCopy : headerLength version ≤ (rtePktmbufClone (given j) udata64).dataOff :=
      room j mem_cons_self
    refine .bind writes (fun _ => ?_)
    refine .bind (vtepHeaderPrepend_holding roomCopy j entry) (fun ret => ?_)
    refine .of_start (fun world prepended => ?_)
    obtain ⟨rfl, holding⟩ := prepended
    rw [if_neg (by decide)]
    refine .read (fun seen same => ?_)
    refine .bind (Spec.startingAt (pointTo_holding (fresh j mem_cons_self)) (same ▸ holding))
      (fun _ => ?_)
    refine .bind (writePkt_holding _ _) (fun _ => ?_)
    refine (ih distinctRest (fun k member => ?_)
      (fun k member => room k (mem_cons_of_mem j member))).ending (fun ret world post => ?_)
    · rw [mem_cons, not_or]
      exact ⟨fun here => notLater (here ▸ member), fresh k (mem_cons_of_mem j member)⟩
    · rw [reverse_cons, append_assoc]
      exact post

/-- A burst into a port frees its clones if all frames have room for the headers. -/
theorem encapsulateBurst_settles (brick : Brick ι) (fromSide : Side) {pktsMask : BitVec 64}
    (room : ∀ j ∈ lowBits pktsMask, headerLength version ≤ (given j).dataOff) :
    Spec (Holding given [] []) (encapsulateBurst brick fromSide i pktsMask : VtepM ι version Int)
      (fun _ => Settled) (fun _ _ => True) := by
  refine .bind (Spec.ifReturned (fixIfDead_keeps holding_tableBlind i)) (fun fixed => ?_)
  split
  · exact .pure (fun _ holding => holding.settled)
  refine .read (fun seen holding => ?_)
  split
  · exact .pure (fun _ same => same ▸ holding.settled)
  refine .bind ((vtepEncapsulate_holding (lowBits_nodup pktsMask) (fun _ _ => not_mem_nil)
    room).startingAt holding) (fun ret => ?_)
  refine .of_start (fun world encapsulated => ?_)
  obtain ⟨returned, holding⟩ := encapsulated
  rw [append_nil] at holding
  rw [if_neg (by omega)]
  refine .read (fun _ same => ?_)
  subst same
  refine .bind (Spec.startingAt (forwardEdges_keeps (fun _ => burstTo_holding _) _)
    (holding.listed (reverse_perm _).symm)) (fun ret => ?_)
  exact .bind (freeOutPkts_holding pktsMask) (fun _ => .pure (fun _ holding => holding.settled))

end Encapsulation

section Decapsulation

variable {given : Nat → Mbuf} {burst : List Nat} {i : Nat}

/-- Handing packets to the neighbour of a port leaves the clones where they are. -/
theorem deliverOn_holding {places : List Nat} (brick : Brick ι) (fromSide : Side)
    (eths hdrs : Nat → Nat) (i : Nat) (pktsMask : BitVec 64) :
    Keeps (Holding given [] places) (fun _ _ => True)
      (deliverOn brick fromSide .out eths hdrs i pktsMask : VtepM ι version Int) := by
  refine .bind (Spec.ifReturned (addDstInerMacs_keeps holding_tableBlind _ _ _ _ _)) (fun _ => ?_)
  refine .bind (restoreMetadata_holding _) (fun _ => ?_)
  exact .read (fun _ _ => burstTo_holding _)

variable (long : ∀ j ∈ burst, (given j).l2Len + sizeofHeaders version ≤ (given j).dataLen)

include long

/-- A round clones all packets of its VNI if they are long enough for their headers. -/
theorem checkAndCloneVniPkts_holding (hdrs : Nat → Nat) {places : List Nat} {vniMask : BitVec 64}
    (distinct : places.Nodup) (inside : places ⊆ burst) (taken : lowBits vniMask ⊆ burst)
    (unset : ∀ j ∈ places, j < 64 ∧ vniMask.getLsbD j = false) :
    Spec (Holding given [] (lowBits vniMask))
      (checkAndCloneVniPkts hdrs i places vniMask : VtepM ι version _)
      (fun vniMask world => lowBits vniMask ⊆ burst ∧ Holding given [] (lowBits vniMask) world)
      (fun _ _ => True) := by
  induction places generalizing vniMask with
  | nil => exact .pure (fun _ holding => ⟨taken, holding⟩)
  | cons j rest ih =>
    obtain ⟨notLater, distinctRest⟩ := nodup_cons.mp distinct
    have insideRest : rest ⊆ burst := fun k member => inside (mem_cons_of_mem j member)
    refine .read (fun seen holding => ?_)
    split
    · refine .bind ((clonePkt_holding j).startingAt holding) (fun cloned => ?_)
      refine .of_start (fun world made => ?_)
      obtain ⟨udata64, ref, rfl, holding⟩ := made
      obtain ⟨below, free⟩ := unset j mem_cons_self
      refine .bind (Spec.startingAt (pointTo_holding (by simp [free])) holding) (fun _ => ?_)
      refine .bind (writePkt_holding _ _) (fun _ => ?_)
      have enough : (rtePktmbufClone (given j) udata64).l2Len + sizeofHeaders version ≤
            (rtePktmbufClone (given j) udata64).dataLen :=
        long j (inside mem_cons_self)
      unfold rtePktmbufAdj
      rw [if_neg (Nat.not_lt.mpr enough)]
      refine .bind (writePkt_holding _ _) (fun _ => ?_)
      refine (ih distinctRest insideRest (fun k member => ?_) (fun k member => ?_)).weaken
        (fun _ holding => holding.listed (lowBits_or_perm below free))
        (fun _ _ post => post) (fun _ _ stopped => stopped)
      · rcases mem_lowBits_or member with rfl | before
        · exact inside mem_cons_self
        · exact taken before
      · obtain ⟨below, free⟩ := unset k (mem_cons_of_mem j member)
        refine ⟨below, ?_⟩
        rw [getLsbD_or_one_shiftLeft, free]
        simp [show k ≠ j from fun same => notLater (same ▸ member)]
    · exact (ih distinctRest insideRest taken
        (fun k member => unset k (mem_cons_of_mem j member))).startingAt holding

variable (brick : Brick ι) (fromSide : Side) (eths hdrs : Nat → Nat)

/-- Every round over a port frees the clones it made. -/
theorem decapsulateFrom_holding (ports : List Nat) {pktsMask : BitVec 64}
    (within : lowBits pktsMask ⊆ burst) :
    Spec (Holding given [] [])
      (decapsulateFrom brick fromSide eths hdrs ports pktsMask : VtepM ι version Int)
      (fun _ => Holding given [] []) (fun _ _ => True) := by
  have noPlaces : lowBits 0#64 = [] := by rw [lowBits_eq_setPositions, setPositions_zero]
  induction ports generalizing pktsMask with
  | nil => exact Keeps.pure _
  | cons i rest ih =>
    unfold decapsulateFrom
    split
    · exact Keeps.pure _
    refine .bind (Spec.ifReturned (fixIfDead_keeps holding_tableBlind i)) (fun fixed => ?_)
    split
    · exact Keeps.pure _
    have clones : Spec (Holding given [] (lowBits 0#64))
          (checkAndCloneVniPkts hdrs i (lowBits pktsMask) 0#64 : VtepM ι version _) _ _ :=
      checkAndCloneVniPkts_holding long hdrs (lowBits_nodup pktsMask) within (by simp [noPlaces])
        (fun j member => ⟨BitVec.lt_of_getLsbD (mem_lowBits.mp member), by simp⟩)
    -- Between two rounds no place holds a clone; within one those of its VNI mask do.
    rw [noPlaces] at clones
    refine .bind clones (fun vniMask => ?_)
    refine .of_start (fun world round => ?_)
    obtain ⟨taken, holding⟩ := round
    have later : lowBits (pktsMask ^^^ vniMask) ⊆ burst :=
      fun j member => (mem_lowBits_xor member).elim (fun left => within left) (fun now => taken now)
    split
    · rename_i isZero
      rw [isZero, noPlaces] at holding
      exact (ih within).startingAt holding
    refine .bind (Spec.startingAt (Spec.ifReturned (hittedMask_keeps i vniMask)) holding)
      (fun hitted => ?_)
    split
    · exact .bind (freeOutPkts_holding vniMask) (fun _ => ih later)
    refine .bind (deliverOn_holding brick fromSide eths hdrs i hitted) (fun ret => ?_)
    refine .bind (freeOutPkts_holding vniMask) (fun _ => ?_)
    split
    · exact Keeps.pure _
    · exact ih later

end Decapsulation

section Bursts

/-- The error of a burst that had no memory to learn a MAC. -/
def noMacMemory : PgError :=
  noMemory "not enouth space to add mac"

/--
The accepted packets of a burst from the output side are long enough for their
headers, and those of a burst into a port have room for the headers.
-/
structure FitsHeaders (state : VtepState version) (fromSide : Side) (pkts : Nat → Mbuf)
    (pktsMask : BitVec 64) : Prop where
  long : fromSide = state.output →
    ∀ j ∈ acceptedPlaces version state.udpDstPortBe pkts pktsMask,
      (classifyPkt version state.udpDstPortBe (pkts j)).1.l2Len + sizeofHeaders version ≤
        (classifyPkt version state.udpDstPortBe (pkts j)).1.dataLen
  room : fromSide ≠ state.output →
    ∀ j ∈ lowBits pktsMask, headerLength version ≤ (pkts j).dataOff

instance decidableFitsHeaders (state : VtepState version) (fromSide : Side) (pkts : Nat → Mbuf)
    (pktsMask : BitVec 64) : Decidable (FitsHeaders state fromSide pkts pktsMask) :=
  decidable_of_iff (_ ∧ _) ⟨fun both => ⟨both.1, both.2⟩, fun fits => ⟨fits.long, fits.room⟩⟩

/-- No neighbour bursts back into the vtep before it returns. -/
def Surroundings.KeepAway (around : Surroundings) : Prop :=
  ∀ call place, around.back call place = false

/-- No clone is refused. -/
def Surroundings.GrantClones (around : Surroundings) : Prop :=
  ∀ call, (around.clones call).isSome = true

/-- The exception handlers end with a report. -/
theorem reports_noMacMemory {pre : VtepWorld ι version → Prop}
    {stop : VtepStop → VtepWorld ι version → Prop} :
    Spec pre (do
        setError (noMemory "not enouth space to add mac")
        pure (-1) : VtepM ι version Int)
      (fun _ world => world.errp = some noMacMemory ∨ Settled world) stop := by
  have reports : Spec pre (setError noMacMemory : VtepM ι version Unit)
        (fun _ world => world.errp = some noMacMemory) stop :=
    .modify (fun _ _ => rfl)
  exact .bind reports (fun _ => .pure (fun _ isError => .inl isError))

variable {brick : Brick ι} {fromSide : Side} {pktsMask : BitVec 64} {given : Nat → Mbuf}
  {world : VtepWorld ι version} (holding : Holding given [] [] world)

include holding

/-- `from_vtep` frees its clones or reports that there was no memory. -/
theorem fromVtep_settles
    (long : ∀ j ∈ acceptedPlaces version world.state.udpDstPortBe given pktsMask,
      (classifyPkt version world.state.udpDstPortBe (given j)).1.l2Len + sizeofHeaders version ≤
        (classifyPkt version world.state.udpDstPortBe (given j)).1.dataLen) :
    Spec (fun state => state = world) (fromVtep brick fromSide pktsMask)
      (fun _ world => world.errp = some noMacMemory ∨ Settled world) (fun _ _ => True) := by
  have slow : world.state.flags ≠ pgVtepAllOpti := by
    intro fast
    have copies := holding.copies
    unfold VtepState.noCopy at copies
    rw [fast] at copies
    exact absurd copies (by decide)
  have body : Spec (fun state => state = world) (decapsulate brick fromSide pktsMask)
        (fun _ => Settled) (fun _ _ => True) := by
    rintro state rfl
    obtain ⟨accepted, isAccepted, ran⟩ :=
      classified_run brick fromSide pktsMask (decapsulateFrom brick fromSide) state
    unfold decapsulate
    rw [holding.pkts] at isAccepted
    rw [ran]
    refine ((decapsulateFrom_holding (fun j member => ?_) brick fromSide _ _ _
      (Subset.refl (lowBits accepted))).ending (fun _ _ holding => holding.settled)) _
      ⟨holding.copies, holding.alone, holding.granted, rfl, holding.held⟩
    rw [isAccepted] at member
    dsimp only [classifiedPkts]
    rw [if_pos (mem_of_mem_filter member), holding.pkts]
    exact long j member
  refine .read (fun seen same => ?_)
  subst same
  rw [if_neg slow]
  refine .tryCatch (body.ending (fun _ _ settled => .inr settled)) (fun reason => ?_)
  cases reason with
  | raised =>
    exact .bind .anyhow (fun _ => reports_noMacMemory)
  | freedTable | aborted abort => exact .throw (fun _ _ => trivial)

/-- `to_vtep` frees its clones or reports that there was no memory. -/
theorem toVtep_settles (i : Nat)
    (room : ∀ j ∈ lowBits pktsMask, headerLength version ≤ (given j).dataOff) :
    Spec (fun state => state = world) (toVtep brick fromSide i pktsMask)
      (fun _ world => world.errp = some noMacMemory ∨ Settled world) (fun _ _ => True) := by
  refine .read (fun seen same => ?_)
  subst same
  have body : Spec (fun state => state = seen) (encapsulateBurst brick fromSide i pktsMask)
        (fun _ world => world.errp = some noMacMemory ∨ Settled world) (fun _ _ => True) :=
    ((encapsulateBurst_settles brick fromSide room).startingAt holding).ending
      (fun _ _ settled => .inr settled)
  split
  · exact body
  refine .tryCatch body (fun reason => ?_)
  cases reason with
  | raised =>
    exact .bind .anyhow (fun _ => .bind .anyhow (fun _ => reports_noMacMemory))
  | freedTable | aborted abort => exact .throw (fun _ _ => trivial)

end Bursts

/-- A burst of two frames into port 0. -/
def twoFrames : VtepOp Bool .v4 :=
  .burst .east 0 (fun _ => frameToLearnt 0#8) 3#64

/-- Surroundings in which one clone can be made. -/
def oneClone : Surroundings :=
  { calmSurroundings with clones := fun call => if call = 0 then some 0#64 else none }

/-- Surroundings in which the neighbours fail. -/
def failingNeighbours : Surroundings :=
  { calmSurroundings with answers := fun _ => -1 }

end PacketGraph
