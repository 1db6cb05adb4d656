import PacketGraph.Vtep.Walks

namespace PacketGraph

open BitScan Bytes Effects List

/-!
# The calls that a burst of a vtep makes

A burst from the output side calls the bricks behind the inner ports, and a
burst from an inner port calls the bricks behind the output side.  No other
step of a burst makes a call.
-/

variable {ι V : Type} {version : IpVersion}

/-- All calls made so far are of an allowed kind. -/
def Delivers (allowed : Delivery ι → Prop) (world : VtepWorld ι version) : Prop :=
  ∀ delivery ∈ world.deliveries, allowed delivery

variable {allowed : Delivery ι → Prop}

/-- The calls do not depend on packets and their clones. -/
theorem delivers_cloneBlind : CloneBlind (Delivers allowed : VtepWorld ι version → Prop) := by
  intro world after same holds
  have sameCalls := congrArg VtepWorld.deliveries same
  change after.deliveries = world.deliveries at sameCalls
  unfold Delivers
  rw [sameCalls]
  exact holds

theorem delivers_packetBlind : PacketBlind (Delivers allowed : VtepWorld ι version → Prop) :=
  delivers_cloneBlind.packetBlind

/-- A world without the tables of its ports, its allocations, its error and its uses. -/
def VtepWorld.tableless (world : VtepWorld ι version) : VtepWorld ι version :=
  { world with
    errp := none
    malloc := fun _ => true
    used := []
    state := { world.state with ports := fun _ => VtepPort.zero version } }

/-- A property of worlds that does not depend on the tables of ports. -/
def TableBlind (property : VtepWorld ι version → Prop) : Prop :=
  ∀ world after, after.tableless = world.tableless → property world → property after

/-- The calls do not depend on tables. -/
theorem delivers_tableBlind : TableBlind (Delivers allowed : VtepWorld ι version → Prop) := by
  intro world after same holds
  have sameCalls := congrArg VtepWorld.deliveries same
  change after.deliveries = world.deliveries at sameCalls
  unfold Delivers
  rw [sameCalls]
  exact holds

section Tables

variable {property : VtepWorld ι version → Prop}

/-- Looking at a table changes nothing. -/
theorem readTable_keeps (which : PortTable version V) (i : Nat) :
    KeepsAlways property (readTable which i : VtepM ι version _) := by
  refine .read (fun world _ => ?_)
  split
  · exact .pure _
  · exact .pure _
  · exact .throw (fun _ holds => holds)

theorem hittedMask_keeps (i : Nat) (vniMask : BitVec 64) :
    KeepsAlways property (hittedMask i vniMask : VtepM ι version (BitVec 64)) := by
  refine .read (fun world _ => ?_)
  split
  · exact .pure _
  · exact .bind (readTable_keeps _ _) (fun _ => Keeps.pure _)

theorem destinationOf_keeps (i j : Nat) :
    KeepsAlways property (destinationOf i j : VtepM ι version _) := by
  refine .read (fun world _ => ?_)
  split
  · exact .pure _
  · exact .bind (readTable_keeps _ _) (fun _ => Keeps.pure _)

variable {stop : VtepStop → VtepWorld ι version → Prop} (blind : TableBlind property)

include blind

/-- A change of tables only keeps a property that is blind to them. -/
theorem TableBlind.modify {change : VtepWorld ι version → VtepWorld ι version}
    (tablesOnly : ∀ world, (change world).tableless = world.tableless) :
    Keeps property stop (modify change : EStateM VtepStop (VtepWorld ι version) PUnit) :=
  Keeps.modify (fun world holds => blind world _ (tablesOnly world) holds)

/-- Writing to a port changes nothing besides tables. -/
theorem modifyPort_keeps (i : Nat) (change : VtepPort version → VtepPort version) :
    KeepsAlways property (modifyPort i change : VtepM ι version Unit) :=
  blind.modify (fun _ => rfl)

section

variable (which : PortTable version V)

/-- Setting an entry changes nothing besides tables, also when it fails. -/
theorem setInTable_keeps (i : Nat) (mac : Mac) (entry : V) :
    KeepsAlways property (setInTable which i mac entry : VtepM ι version Unit) := by
  refine .read (fun world _ => ?_)
  split
  · exact .throw (fun _ holds => holds)
  · exact .throw (fun _ holds => holds)
  · refine .bind (blind.modify (fun _ => rfl)) (fun _ => ?_)
    split
    · exact modifyPort_keeps blind _ _
    · exact .bind (modifyPort_keeps blind _ _) (fun _ => Keeps.throw (fun _ holds => holds))
    · exact .throw (fun _ holds => holds)

/-- Freeing a table changes nothing besides tables. -/
theorem freeTable_keeps (i : Nat) :
    KeepsAlways property (freeTable which i : VtepM ι version Unit) := by
  refine .read (fun world _ => ?_)
  split
  · exact .pure _
  · exact .throw (fun _ holds => holds)
  · split
    · exact .throw (fun _ holds => holds)
    · exact modifyPort_keeps blind _ _

theorem dropTable_keeps (deadTables : BitVec 32) (i : Nat) :
    KeepsAlways property (dropTable which deadTables i : VtepM ι version Unit) :=
  Keeps.bind (modifyPort_keeps blind _ _) (fun _ => freeTable_keeps blind _ _)

/-- Making a table changes nothing besides tables. -/
theorem initTable_keeps (i : Nat) :
    KeepsAlways property (initTable which i : VtepM ι version Int) := by
  refine .read (fun world _ => ?_)
  refine .bind (blind.modify (fun _ => rfl)) (fun _ => ?_)
  split
  · exact .bind (modifyPort_keeps blind _ _) (fun _ => Keeps.pure _)
  · exact .bind (modifyPort_keeps blind _ _) (fun _ => Keeps.pure _)

/-- Making a dead table again changes nothing besides tables. -/
theorem fixTable_keeps (flag : BitVec 32) (i : Nat) :
    KeepsAlways property (fixTable which flag i : VtepM ι version Int) := by
  refine .read (fun world _ => ?_)
  split
  · refine .bind (initTable_keeps blind _ _) (fun ret => ?_)
    split
    · exact .bind (blind.modify (fun _ => rfl)) (fun _ => Keeps.pure _)
    · exact .bind (modifyPort_keeps blind _ _) (fun _ => Keeps.pure _)
  · exact .pure _

end

/-- `fix_if_dead` changes nothing besides tables. -/
theorem fixIfDead_keeps (i : Nat) : KeepsAlways property (fixIfDead i : VtepM ι version Int) := by
  refine .read (fun world _ => ?_)
  split
  · refine .bind (fixTable_keeps blind _ _ _) (fun ret => ?_)
    split
    · exact .pure _
    · exact fixTable_keeps blind _ _ _
  · exact .pure _

/-- The handler of `from_vtep` drops tables only. -/
theorem dropMacToDst_keeps (ports : List Nat) :
    KeepsAlways property (dropMacToDst ports : VtepM ι version Unit) := by
  induction ports with
  | nil => exact .pure _
  | cons i rest ih => exact .bind (dropTable_keeps blind _ _ _) (fun _ => ih)

/-- Learning sources changes nothing besides tables. -/
theorem addDstInerMacs_keeps (array : PktArray) (eths hdrs : Nat → Nat) (i : Nat)
    (places : List Nat) :
    KeepsAlways property (addDstInerMacs array eths hdrs i places : VtepM ι version Unit) := by
  induction places with
  | nil => exact .pure _
  | cons j rest ih =>
    refine .read (fun world _ => ?_)
    exact .bind (setInTable_keeps blind _ _ _ _)
      (fun _ => .bind (blind.modify (fun _ => rfl)) (fun _ => ih))

/-- Refreshing an entry changes nothing besides tables. -/
theorem useEntry_keeps (i : Nat) (mac : Mac) :
    KeepsAlways property (useEntry i mac : VtepM ι version Unit) := by
  refine .bind (.bind (readTable_keeps _ _) (fun table => ?_))
    (fun _ => blind.modify (fun _ => rfl))
  exact .read (fun world _ => modifyPort_keeps blind _ _)

theorem learnSource_keeps (i : Nat) (inner : Mbuf) :
    KeepsAlways property (learnSource i inner : VtepM ι version Unit) := by
  refine .read (fun world _ => ?_)
  split
  · exact .pure _
  · exact setInTable_keeps blind _ _ _ _

end Tables

section Calls

variable {allowed : Delivery ι → Prop}

/-- A call to a brick that is allowed. -/
theorem burstTo_delivers {call : Option (Delivery ι)}
    (isAllowed : ∀ delivery, call = some delivery → allowed delivery) :
    KeepsAlways (Delivers allowed) (burstTo call : VtepM ι version Int) := by
  refine burstTo_keeps (fun delivery world isCall holds other member => ?_)
  rcases mem_append.mp member with earlier | now
  · exact holds other earlier
  · rw [mem_singleton.mp now]
    exact isAllowed delivery isCall

/-- Forwarding to a side makes the calls of its edges. -/
theorem forwardEdges_delivers
    {brick : Brick ι} {side fromSide : Side} {pkts : Nat → Mbuf} {pktsMask : BitVec 64}
    (isAllowed :
      ∀ index send, edgeSend brick side index fromSide pktsMask = some send →
        allowed { send with pkts := pkts })
    (indices : List Nat) :
    KeepsAlways (Delivers allowed)
      (forwardEdges brick side fromSide pkts pktsMask indices : VtepM ι version Int) := by
  refine forwardEdges_keeps (fun index => burstTo_delivers ?_) indices
  intro delivery isCall
  obtain ⟨send, isSend, rfl⟩ := Option.map_eq_some_iff.mp isCall
  exact isAllowed index send isSend

end Calls

section Decapsulation

variable {allowed : Delivery ι → Prop} {brick : Brick ι} {fromSide : Side}

variable (isAllowed : ∀ i pkts pktsMask delivery,
      portCall brick (pgFlipSide fromSide) fromSide i pkts pktsMask = some delivery →
      allowed delivery)

include isAllowed

/-- A burst from the output side only calls the bricks behind ports. -/
theorem decapRule_delivers :
    DecapRule brick fromSide (Delivers allowed : VtepWorld ι version → Prop)
      (fun _ => Delivers allowed) (fun _ => Delivers allowed) where
  blind := delivers_packetBlind
  fixedBlind := fun _ => delivers_cloneBlind
  bare := fun _ _ holds => holds
  fixes := fun i => Spec.ending (fixIfDead_keeps delivers_tableBlind i)
      (fun _ _ holds => ⟨holds, fun _ => holds⟩)
  hits := fun _ _ => hittedMask_keeps _ _
  learns := fun _ _ _ _ _ => addDstInerMacs_keeps delivers_tableBlind _ _ _ _ _
  calls := fun _ _ _ => burstTo_delivers (fun delivery => isAllowed _ _ _ delivery)

/-- All calls of `from_vtep` go to ports. -/
theorem fromVtep_delivers (pktsMask : BitVec 64) :
    KeepsAlways (Delivers allowed) (fromVtep brick fromSide pktsMask : VtepM ι version Int) := by
  refine .read (fun world _ => ?_)
  refine KeepsAlways.tryCatch ((decapRule_delivers isAllowed).decapsulates pktsMask _)
    (fun stopped => ?_)
  cases stopped with
  | raised =>
    refine .bind (dropMacToDst_keeps delivers_tableBlind _) (fun _ => ?_)
    exact .bind (setError_keeps delivers_packetBlind _) (fun _ => Keeps.pure _)
  | freedTable | aborted reason => exact .throw (fun _ holds => holds)

end Decapsulation

section Encapsulation

variable {allowed : Delivery ι → Prop}

/-- Encapsulating makes no call. -/
theorem encapRule_delivers (i : Nat) :
    EncapRule i (Delivers allowed : VtepWorld ι version → Prop) (fun _ => Delivers allowed) where
  blind := delivers_packetBlind
  touches := fun _ => useEntry_keeps delivers_tableBlind _ _
  learns := fun _ => learnSource_keeps delivers_tableBlind _ _
  cloneBlind := delivers_cloneBlind
  finds := fun _ => destinationOf_keeps _ _

variable {brick : Brick ι} {fromSide : Side} {pktsMask : BitVec 64} (isAllowed : ∀ index pkts send,
      edgeSend brick (pgFlipSide fromSide) index fromSide pktsMask = some send →
      allowed { send with pkts := pkts })

include isAllowed

theorem encapsulateBurst_delivers (edgeIndex : Nat) :
    KeepsAlways (Delivers allowed)
      (encapsulateBurst brick fromSide edgeIndex pktsMask : VtepM ι version Int) := by
  refine (encapRule_delivers edgeIndex).encapsulateBurst
    delivers_cloneBlind (fun _ holds => holds) ?_ (fun _ => forwardEdges_delivers
      (fun index send => isAllowed index _ send) _)
  exact Spec.ending (fixIfDead_keeps delivers_tableBlind edgeIndex)
    (fun _ _ holds => ⟨holds, fun _ _ => holds⟩)

/-- All calls of `to_vtep` go out of the output side. -/
theorem toVtep_delivers (edgeIndex : Nat) :
    KeepsAlways (Delivers allowed)
      (toVtep brick fromSide edgeIndex pktsMask : VtepM ι version Int) := by
  refine .read (fun world _ => ?_)
  split
  · exact encapsulateBurst_delivers isAllowed edgeIndex
  refine KeepsAlways.tryCatch (encapsulateBurst_delivers isAllowed edgeIndex) (fun stopped => ?_)
  cases stopped with
  | raised =>
    refine .bind (dropTable_keeps delivers_tableBlind _ _ _) (fun _ => ?_)
    refine .bind (freeOutPkts_keeps delivers_cloneBlind _) (fun _ => ?_)
    exact .bind (setError_keeps delivers_packetBlind _) (fun _ => Keeps.pure _)
  | freedTable | aborted reason => exact .throw (fun _ holds => holds)

end Encapsulation

/-- Every call of a burst goes out of the side opposite to the burst. -/
theorem vtepBurst_delivers {brick : Brick ι} {fromSide : Side} {pktsMask : BitVec 64}
    {world : VtepWorld ι version}
    (inward : fromSide = world.state.output → ∀ i pkts mask delivery, portCall brick (pgFlipSide
        fromSide) fromSide i pkts mask = some delivery → allowed delivery)
    (outward :
      fromSide ≠ world.state.output →
      ∀ index pkts send, edgeSend brick (pgFlipSide fromSide) index fromSide pktsMask = some send →
        allowed { send with pkts := pkts }) (noCalls : world.deliveries = []) (edgeIndex : Nat) :
    Delivers allowed (finalState (vtepBurst brick fromSide edgeIndex pktsMask world)) := by
  have start : Delivers allowed world.ticked := by
    intro delivery member
    rw [show world.ticked.deliveries = [] from noCalls] at member
    exact absurd member not_mem_nil
  rw [vtepBurst_eq]
  split
  · rename_i isInward
    exact (fromVtep_delivers (inward isInward) pktsMask).finalState start
  · rename_i isOutward
    exact (toVtep_delivers (outward isOutward) edgeIndex).finalState start

end PacketGraph
