import PacketGraph.Vtep.Attach

namespace PacketGraph

open BitScan Effects Function

/-!
# What operations do to ports

An operation changes the ports of a vtep by a few elementary changes: it sets
and refreshes entries of their tables, makes, empties and frees tables, and
overwrites flags.  Only attaching a VNI and taking it back write the VNI and
the group of a port.  What a vtep was made with never changes.

This holds however an operation ends and whatever it finds, so that every
invariant of ports is an invariant of the elementary changes.
-/

variable {ι V : Type} {version : IpVersion}

section Changes

/-- The entries of a table of a port. -/
def TableSlot.contents : TableSlot V → MacKey → Option V
  | .live table, key => table.contents key
  | _, _ => none

/-- The keys of the entries of a port that were learnt or sent to. -/
def usedAt (used : List (Nat × Mac)) (i : Nat) : List MacKey :=
  (used.filter (fun use => use.1 = i)).map (fun use => macKey use.2)

@[simp] theorem usedAt_cons_self (i : Nat) (mac : Mac) (used : List (Nat × Mac)) :
    usedAt ((i, mac) :: used) i = macKey mac :: usedAt used i := by
  simp [usedAt]

theorem usedAt_cons_of_ne {i k : Nat} (elsewhere : k ≠ i) (mac : Mac) (used : List (Nat × Mac)) :
    usedAt ((i, mac) :: used) k = usedAt used k := by
  simp [usedAt, Ne.symm elsewhere]

/--
The elementary changes of a port while the tick of its vtep is given, and the
key of the entry of `mac_to_dst` that is learnt or sent to with them.
-/
inductive PortChange (tick : BitVec 64) (port : VtepPort version) :
    Option MacKey → VtepPort version → Prop where
  | learn {table after : MacTable (DestAddresses version)} {malloc : Malloc}
      {mac : Mac} {entry : DestAddresses version} :
      port.macToDst = .live table →
      entry.lifetime = tick →
      (macTableSet malloc table mac entry).1 = .stored after →
      PortChange tick port (some (macKey mac)) { port with macToDst := .live after }
  | grow {table after : MacTable (DestAddresses version)} {malloc : Malloc}
      {mac : Mac} {entry : DestAddresses version} :
      port.macToDst = .live table →
      (macTableSet malloc table mac entry).1 = .raised after →
      PortChange tick port none { port with macToDst := .live after }
  | refresh {table : MacTable (DestAddresses version)} (mac : Mac) :
      port.macToDst.reads = some table →
      PortChange tick port (some (macKey mac))
        { port with macToDst := .live (table.refreshed tick mac) }
  | know {table after : MacTable Unit} {malloc : Malloc} {mac : Mac} :
      port.knownMac = .live table →
      (macTableSet malloc table mac ()).1 = .stored after ∨
        (macTableSet malloc table mac ()).1 = .raised after →
      PortChange tick port none { port with knownMac := .live after }
  | flag {deadTables : BitVec 32} :
      (deadTables.getLsbD 1 = true →
        port.deadTables.getLsbD 1 = true ∨ ∃ table, port.knownMac = .live table) →
      PortChange tick port none { port with deadTables := deadTables }
  | make :
      PortChange tick port none
        { port with macToDst := .live (MacTable.zero (DestAddresses version)) }
  | makeKnown :
      port.deadTables.getLsbD 1 = true ∨ port.Attached →
      PortChange tick port none { port with knownMac := .live (MacTable.zero Unit) }
  | free : PortChange tick port none { port with macToDst := .freed }
  | freeKnown :
      port.knownMac ≠ .absent → PortChange tick port none { port with knownMac := .freed }
  | clear {table after : MacTable (DestAddresses version)} :
      port.macToDst = .live table →
      pgMacTableClear table = .ok after →
      PortChange tick port none { port with macToDst := .live after }
  | clean {table : MacTable (DestAddresses version)} (maxLife : BitVec 64) :
      port.macToDst = .live table →
      PortChange tick port none
        { port with macToDst := .live (foreachElem table (agedOut tick maxLife)).2 }
  | forget {table : MacTable (DestAddresses version)} (mac : Mac) :
      port.macToDst = .live table →
      PortChange tick port none { port with macToDst := .live (pgMacTableElemUnset table mac).2 }

/-- Elementary changes one after the other, with the keys learnt or sent to. -/
inductive PortChanges (tick : BitVec 64) (port : VtepPort version) :
    List MacKey → VtepPort version → Prop where
  | refl : PortChanges tick port [] port
  | tail {keys : List MacKey} {middle after : VtepPort version} {key : Option MacKey} :
      PortChanges tick port keys middle →
      PortChange tick middle key after →
      PortChanges tick port (key.toList ++ keys) after

/-- A state without its ports, its packets and its packet id. -/
def VtepState.config (state : VtepState version) : VtepState version :=
  { state with
    ports := fun _ => VtepPort.zero version
    pkts := fun _ => Mbuf.zero
    packetId := 0#16 }

/--
All ports of a world became what they are by elementary changes, and what was
learnt or sent to with them was noted.  Outside of bursts that is nothing.
-/
structure Upheld (inBurst : Bool) (start : VtepState version) (world : VtepWorld ι version) :
    Prop where
  config : world.state.config = start.config
  idle : inBurst = false → world.used = []
  ports : ∀ i, PortChanges start.vtepTick (start.ports i) (usedAt world.used i)
      (world.state.ports i)

variable {inBurst : Bool} {start : VtepState version} {world : VtepWorld ι version}

/-- The tick stands still within an operation. -/
theorem Upheld.tick (upheld : Upheld inBurst start world) :
    world.state.vtepTick = start.vtepTick := by
  have sameTick := congrArg VtepState.vtepTick upheld.config
  exact sameTick

/-- What happened to ports does not depend on packets and clones. -/
theorem upheld_cloneBlind : CloneBlind (Upheld inBurst start : VtepWorld ι version → Prop) := by
  intro world after same upheld
  have samePorts := congrArg (fun core => core.state.ports) same
  have sameConfig := congrArg (fun core => core.state.config) same
  have sameUsed := congrArg VtepWorld.used same
  change after.state.ports = world.state.ports at samePorts
  change after.state.config = world.state.config at sameConfig
  change after.used = world.used at sameUsed
  refine ⟨sameConfig.trans upheld.config, ?_, ?_⟩
  · rw [sameUsed]
    exact upheld.idle
  · rw [samePorts, sameUsed]
    exact upheld.ports

theorem upheld_packetBlind : PacketBlind (Upheld inBurst start : VtepWorld ι version → Prop) :=
  upheld_cloneBlind.packetBlind

variable {i : Nat} {port : VtepPort version}

/-- A change with which nothing is learnt or sent to. -/
theorem Upheld.withPort (upheld : Upheld inBurst start world)
    (change : PortChange start.vtepTick (world.state.ports i) none port) :
    Upheld inBurst start (world.withPort i port) := by
  refine ⟨upheld.config, upheld.idle, fun k => ?_⟩
  show PortChanges _ _ (usedAt world.used k) (update world.state.ports i port k)
  by_cases here : k = i
  · subst here
    rw [update_self]
    exact (upheld.ports k).tail change
  · rw [update_of_ne here]
    exact upheld.ports k

/-- A change with which an entry is learnt or sent to, once that is noted. -/
theorem Upheld.withUse {mac : Mac} (upheld : Upheld true start world)
    (change : PortChange start.vtepTick (world.state.ports i) (some (macKey mac)) port) :
    Upheld true start { world.withPort i port with used := (i, mac) :: world.used } := by
  refine ⟨upheld.config, fun isIdle => (by cases isIdle), fun k => ?_⟩
  show PortChanges _ _ (usedAt ((i, mac) :: world.used) k) (update world.state.ports i port k)
  by_cases here : k = i
  · subst here
    rw [update_self, usedAt_cons_self]
    exact (upheld.ports k).tail change
  · rw [update_of_ne here, usedAt_cons_of_ne here]
    exact upheld.ports k

/-- Allocations are nothing that a port shows. -/
theorem Upheld.withTable {malloc : Malloc} {which : PortTable version V} {slot : TableSlot V}
    (upheld : Upheld inBurst start world)
    (change : PortChange start.vtepTick (world.state.ports i) none
        (which.put (world.state.ports i) slot)) :
    Upheld inBurst start (world.withTable malloc which i slot) :=
  Upheld.withPort ⟨upheld.config, upheld.idle, upheld.ports⟩ change

end Changes

section Tables

variable {inBurst : Bool} {start : VtepState version}

/-- Making and freeing a table are changes of its port. -/
structure Changeable (tick : BitVec 64) (which : PortTable version V) (flag : BitVec 32) :
    Prop where
  put_slot : ∀ port, which.put port (which.slot port) = port
  slot_put : ∀ port slot, which.slot (which.put port slot) = slot
  free : ∀ port, which.slot port ≠ .absent → PortChange tick port none (which.put port .freed)
  make : ∀ port, port.isDead flag = true →
      PortChange tick port none (which.put port (.live (MacTable.zero V)))
  flip : ∀ port, port.isDead flag = true →
      PortChange tick (which.put port (.live (MacTable.zero V))) none
        ((which.put port (.live (MacTable.zero V))).flipped flag)

/-- The table of destinations is changed by elementary changes. -/
theorem changeable_macToDst (tick : BitVec 64) :
    Changeable tick (macToDst : PortTable version _) isMacToDstDead where
  put_slot := fun _ => rfl
  slot_put := fun _ _ => rfl
  free := fun _ _ => .free
  make := fun _ _ => .make
  flip := by
    intro port _
    refine .flag (fun isSet => .inl ?_)
    rwa [(getLsbD_xor_isMacToDstDead _).2] at isSet

/-- The table of known addresses is changed by elementary changes. -/
theorem changeable_knownMac (tick : BitVec 64) :
    Changeable tick (knownMac : PortTable version _) isKnownMacDead where
  put_slot := fun _ => rfl
  slot_put := fun _ _ => rfl
  free := fun _ isThere => .freeKnown isThere
  make := by
    intro port dead
    rw [isDead_knownMac] at dead
    exact .makeKnown (.inl dead)
  flip := fun _ _ => .flag (fun _ => .inr ⟨_, rfl⟩)

variable {which : PortTable version V} {flag : BitVec 32}

/-- A table whose pointer is overwritten is a change, unless there is none. -/
theorem Upheld.lost {world : VtepWorld ι version} (upheld : Upheld inBurst start world)
    (changeable : Changeable start.vtepTick which flag) (i : Nat) :
    Upheld inBurst start (world.withPort i
      (which.put (world.state.ports i) (which.slot (world.state.ports i)).lost)) := by
  cases isSlot : which.slot (world.state.ports i) with
  | absent =>
    have same := changeable.put_slot (world.state.ports i)
    rw [isSlot] at same
    unfold VtepWorld.withPort
    rw [TableSlot.lost, same, update_eq_self]
    exact upheld
  | live table | freed =>
    exact upheld.withPort (changeable.free _ (by rw [isSlot]; simp))

/-- A step that stops after a failed allocation was writing to a table. -/
def StopsAt (inBurst : Bool) (which : PortTable version V) (i : Nat) (start : VtepState version)
    (reason : VtepStop) (world : VtepWorld ι version) : Prop :=
  Upheld inBurst start world ∧
    (reason = .raised → ∃ table, which.slot (world.state.ports i) = .live table)

/-- Looking at a table stops where it was freed. -/
theorem readTable_stops {W : Type} (written : PortTable version W) (k : Nat)
    (which : PortTable version V) (i : Nat) :
    Keeps (Upheld inBurst start) (StopsAt inBurst written k start)
      (readTable which i : VtepM ι version _) := by
  intro world upheld
  rw [readTable_run]
  cases which.slot (world.state.ports i) with
  | absent | live table => exact upheld
  | freed => exact ⟨upheld, fun isRaised => nomatch isRaised⟩

/-- Setting an entry changes the table also when it raises. -/
theorem setInTable_stops {post : VtepWorld ι version → Prop} {mac : Mac} {entry : V} {i : Nat}
    (changeable : Changeable start.vtepTick which flag)
    (stored : ∀ {world malloc table after}, Upheld inBurst start world →
      which.slot (world.state.ports i) = .live table →
      (macTableSet world.malloc table mac entry).1 = .stored after →
      post (world.withTable malloc which i (.live after)))
    (raised : ∀ {port malloc table after}, which.slot port = .live table →
      (macTableSet malloc table mac entry).1 = .raised after →
      PortChange start.vtepTick port none (which.put port (.live after))) :
    Spec (Upheld inBurst start) (setInTable which i mac entry) (fun _ => post)
      (StopsAt inBurst which i start) := by
  intro world upheld
  rw [setInTable_run]
  cases isSlot : which.slot (world.state.ports i) with
  | absent | freed => exact ⟨upheld, fun isRaised => nomatch isRaised⟩
  | live table =>
    dsimp only
    rcases isSet : macTableSet world.malloc table mac entry with ⟨outcome, malloc⟩
    have isOutcome := congrArg Prod.fst isSet
    cases outcome with
    | stored after => exact stored upheld isSlot isOutcome
    | raised after =>
      refine ⟨upheld.withTable (raised isSlot isOutcome), fun _ => ⟨after, ?_⟩⟩
      unfold VtepWorld.withTable
      rw [ports_withPort_self, changeable.slot_put]
    | fault =>
      exact ⟨⟨upheld.config, upheld.idle, upheld.ports⟩, fun isRaised => nomatch isRaised⟩

/-- Freeing a table is an elementary change. -/
theorem freeTable_upheld (changeable : Changeable start.vtepTick which flag) (i : Nat) :
    KeepsAlways (Upheld inBurst start) (freeTable which i : VtepM ι version Unit) := by
  intro world upheld
  rw [freeTable_run]
  cases isSlot : which.slot (world.state.ports i) with
  | absent | freed => exact upheld
  | live table =>
    dsimp only
    cases pgMacTableClear table with
    | error reason => exact upheld
    | ok after => exact upheld.withTable (changeable.free _ (by rw [isSlot]; simp))

variable {i : Nat}

/-- Dropping a table overwrites the flags of its port first. -/
theorem dropTable_upheld {deadTables : BitVec 32} {pre : VtepWorld ι version → Prop}
    (changeable : Changeable start.vtepTick which flag)
    (flags : ∀ world, pre world → Upheld inBurst start world ∧
      (deadTables.getLsbD 1 = true → ∃ table, (world.state.ports i).knownMac = .live table)) :
    Spec pre (dropTable which deadTables i : VtepM ι version Unit)
      (fun _ => Upheld inBurst start) (fun _ => Upheld inBurst start) := by
  have flagged : Spec pre (modifyPort i (fun port => { port with deadTables := deadTables }) :
          VtepM ι version Unit)
        (fun _ => Upheld inBurst start) (fun _ => Upheld inBurst start) := by
    refine Spec.modify (fun world holds => ?_)
    obtain ⟨upheld, inUse⟩ := flags world holds
    exact upheld.withPort (.flag (fun isSet => .inr (inUse isSet)))
  exact Spec.bind flagged (fun _ => freeTable_upheld changeable i)

variable {stop : VtepStop → VtepWorld ι version → Prop}

/-- Making a dead table again is a few elementary changes. -/
theorem fixTable_upheld (changeable : Changeable start.vtepTick which flag) (i : Nat) :
    Keeps (Upheld inBurst start) stop (fixTable which flag i : VtepM ι version Int) := by
  intro world upheld
  rw [fixTable_run]
  have spent : Upheld inBurst start { world with malloc := world.malloc.after 1 } :=
    ⟨upheld.config, upheld.idle, upheld.ports⟩
  by_cases dead : (world.state.ports i).isDead flag = true
  · rw [if_pos dead]
    unfold pgMacTableInit
    cases world.malloc 0 with
    | false =>
      have lost := spent.lost changeable i
      exact ⟨lost.config, lost.idle, lost.ports⟩
    | true =>
      have made := spent.withPort (changeable.make _ dead)
      have flips := changeable.flip _ dead
      rw [← ports_withPort_self { world with malloc := world.malloc.after 1 } i
        (which.put (world.state.ports i) (.live (MacTable.zero V)))] at flips
      have flipped := made.withPort flips
      rwa [withPort_withPort, ports_withPort_self] at flipped
  · rw [if_neg dead]
    exact upheld

/-- `fix_if_dead` makes elementary changes. -/
theorem fixIfDead_upheld (i : Nat) :
    Keeps (Upheld inBurst start) stop (fixIfDead i : VtepM ι version Int) := by
  refine Keeps.read (fun world _ => ?_)
  split
  · refine Keeps.bind (fixTable_upheld (changeable_macToDst _) i) (fun ret => ?_)
    split
    · exact Keeps.pure _
    · exact fixTable_upheld (changeable_knownMac _) i
  · exact Keeps.pure _

theorem doAddMac_stops (i : Nat) (mac : BitVec 48) :
    Keeps (Upheld inBurst start) (StopsAt inBurst knownMac i start)
      (doAddMac i mac : VtepM ι version Unit) :=
  setInTable_stops (changeable_knownMac _)
    (fun upheld isLive stored => upheld.withTable (.know isLive (.inl stored)))
    (fun isLive raised => .know isLive (.inr raised))

/-- Whatever a step was writing to when it stopped. -/
theorem upheld_of_stops {α : Type} {program : VtepM ι version α}
    (keeps : Keeps (Upheld inBurst start) (StopsAt inBurst which i start) program) :
    KeepsAlways (Upheld inBurst start) program :=
  keeps.weaken (fun _ upheld => upheld) (fun _ _ upheld => upheld) (fun _ _ stopped => stopped.1)

end Tables

section Bursts

variable {inBurst : Bool} {start : VtepState version}
  {stop : VtepStop → VtepWorld ι version → Prop}

/-- A call changes no port. -/
theorem burstTo_upheld (call : Option (Delivery ι)) :
    Keeps (Upheld inBurst start) stop (burstTo call : VtepM ι version Int) :=
  burstTo_keeps (fun _ _ _ upheld => ⟨upheld.config, upheld.idle, upheld.ports⟩)

variable (i : Nat)

theorem hittedMask_upheld (vniMask : BitVec 64) :
    KeepsAlways (Upheld inBurst start) (hittedMask i vniMask : VtepM ι version (BitVec 64)) := by
  refine Keeps.read (fun world _ => ?_)
  split
  · exact Keeps.pure _
  · exact Keeps.bind (upheld_of_stops (readTable_stops knownMac i _ _)) (fun _ => Keeps.pure _)

/-- An entry that is learnt has the tick as its lifetime. -/
theorem setMacToDst_learns {mac : Mac} {entry : DestAddresses version}
    (isTick : entry.lifetime = start.vtepTick) :
    Spec (Upheld true start) (setInTable macToDst i mac entry : VtepM ι version Unit)
      (fun _ world => Upheld true start { world with used := (i, mac) :: world.used })
      (fun _ => Upheld true start) := by
  refine Spec.weaken (setInTable_stops (changeable_macToDst _)
    (fun upheld isLive stored => ?_) (fun isLive raised => .grow isLive raised))
    (fun _ upheld => upheld) (fun _ _ noted => noted) (fun _ _ stopped => stopped.1)
  exact Upheld.withUse ⟨upheld.config, upheld.idle, upheld.ports⟩ (.learn isLive isTick stored)

/-- Every source that is learnt is recorded with its entry. -/
theorem addDstInerMacs_upheld (array : PktArray) (eths hdrs : Nat → Nat) (i : Nat)
    (places : List Nat) :
    KeepsAlways (Upheld true start)
      (addDstInerMacs array eths hdrs i places : VtepM ι version Unit) := by
  induction places with
  | nil => exact Keeps.pure _
  | cons j rest ih =>
    refine Keeps.read (fun world upheld => ?_)
    refine Spec.bind (setMacToDst_learns i upheld.tick) (fun _ => ?_)
    exact Spec.bind (Spec.modify (fun _ noted => noted)) (fun _ => ih)

variable (brick : Brick ι) (fromSide : Side)

theorem decapRule_upheld :
    DecapRule brick fromSide (Upheld true start : VtepWorld ι version → Prop)
      (fun _ => Upheld true start) (fun _ => Upheld true start) where
  blind := upheld_packetBlind
  fixedBlind := fun _ => upheld_cloneBlind
  bare := fun _ _ upheld => upheld
  fixes := fun i => Spec.ending (fixIfDead_upheld i) (fun _ _ upheld => ⟨upheld, fun _ => upheld⟩)
  hits := fun _ _ => hittedMask_upheld _ _
  learns := fun _ _ _ _ _ => addDstInerMacs_upheld _ _ _ _ _
  calls := fun _ _ _ => burstTo_upheld _

/-- The handler of `from_vtep` makes elementary changes. -/
theorem dropMacToDst_upheld (ports : List Nat) :
    KeepsAlways (Upheld true start) (dropMacToDst ports : VtepM ι version Unit) := by
  induction ports with
  | nil => exact Keeps.pure _
  | cons i rest ih =>
    refine Spec.bind (dropTable_upheld (changeable_macToDst _)
      (fun _ upheld => ⟨upheld, fun isSet => ?_⟩)) (fun _ => ih)
    exact absurd isSet (by decide)

/-- A burst from the output side makes elementary changes. -/
theorem fromVtep_upheld (pktsMask : BitVec 64) :
    KeepsAlways (Upheld true start) (fromVtep brick fromSide pktsMask : VtepM ι version Int) := by
  refine Keeps.read (fun seen _ => KeepsAlways.tryCatch ?_ (fun reason => ?_))
  · exact (decapRule_upheld _ _).decapsulates pktsMask _
  · cases reason with
    | raised =>
      refine Keeps.bind (dropMacToDst_upheld _) (fun _ => ?_)
      exact Keeps.bind (setError_keeps upheld_packetBlind _) (fun _ => Keeps.pure _)
    | freedTable | aborted abort => exact Keeps.throw (fun _ upheld => upheld)

/-- An entry that is sent to has the tick as its lifetime. -/
theorem useEntry_stops (mac : Mac) :
    Keeps (Upheld true start) (StopsAt true knownMac i start)
      (useEntry i mac : VtepM ι version Unit) := by
  intro world upheld
  have touched := touchEntry_run world i mac
  rw [upheld.tick] at touched
  unfold useEntry
  cases reads : (world.state.ports i).macToDst.reads with
  | none =>
    rw [reads] at touched
    rw [bind_of_error touched]
    exact ⟨upheld, fun isRaised => nomatch isRaised⟩
  | some table =>
    rw [reads] at touched
    rw [bind_of_ok touched]
    exact upheld.withUse (.refresh mac reads)

theorem destinationOf_stops (j : Nat) :
    Keeps (Upheld true start) (StopsAt true knownMac i start)
      (destinationOf i j : VtepM ι version _) := by
  refine Keeps.read (fun world _ => ?_)
  split
  · exact Keeps.pure _
  · exact Keeps.bind (readTable_stops _ _ _ _) (fun _ => Keeps.pure _)

/-- Encapsulating makes elementary changes, up to where it stops. -/
theorem encapRule_upheld :
    EncapRule i (Upheld true start : VtepWorld ι version → Prop)
      (StopsAt true knownMac i start) where
  blind := upheld_packetBlind
  cloneBlind := upheld_cloneBlind
  finds := fun _ => destinationOf_stops _ _
  touches := fun _ => useEntry_stops _ _
  learns := by
    refine fun _ => Keeps.read (fun _ _ => ?_)
    split
    · exact Keeps.pure _
    · exact doAddMac_stops _ _

theorem encapsulateBurst_stops (i : Nat) (pktsMask : BitVec 64) :
    Keeps (Upheld true start) (StopsAt true knownMac i start)
      (encapsulateBurst brick fromSide i pktsMask : VtepM ι version Int) := by
  refine (encapRule_upheld i).encapsulateBurst upheld_cloneBlind (fun _ upheld => upheld) ?_
    (fun _ => forwardEdges_keeps (fun _ => burstTo_upheld _) _)
  exact Spec.ending (fixIfDead_upheld i) (fun _ _ upheld => ⟨upheld, fun _ _ => upheld⟩)

/-- A burst into a port makes elementary changes. -/
theorem toVtep_upheld (i : Nat) (pktsMask : BitVec 64) :
    KeepsAlways (Upheld true start) (toVtep brick fromSide i pktsMask : VtepM ι version Int) := by
  refine Keeps.read (fun seen _ => ?_)
  split
  · exact upheld_of_stops (encapsulateBurst_stops _ _ _ _)
  · refine Keeps.tryCatch (encapsulateBurst_stops _ _ _ _) (fun reason => ?_)
    cases reason with
    | raised =>
      refine Spec.bind (dropTable_upheld (changeable_knownMac _)
        (fun _ stopped => ⟨stopped.1, fun _ => stopped.2 rfl⟩)) (fun _ => ?_)
      refine Keeps.bind (freeOutPkts_keeps upheld_cloneBlind _) (fun _ => ?_)
      exact Keeps.bind (setError_keeps upheld_packetBlind _) (fun _ => Keeps.pure _)
    | freedTable | aborted abort => exact Spec.throw (fun _ stopped => stopped.1)

end Bursts

section Management

variable {inBurst : Bool} {start : VtepState version}

variable (brick : Brick ι)

/-- Sending a report changes no port. -/
theorem multicastInternal_upheld (multicastIp : Ip version) (action : Operation) :
    KeepsAlways (Upheld inBurst start)
      (multicastInternal brick multicastIp action : VtepM ι version Unit) := by
  refine Keeps.read (fun world _ => ?_)
  split
  · exact setError_keeps upheld_packetBlind _
  · refine Keeps.bind (Keeps.modify (fun _ upheld =>
      ⟨upheld.config, upheld.idle, upheld.ports⟩)) (fun _ => ?_)
    split
    · exact setError_keeps upheld_packetBlind _
    · dsimp only
      split
      · unfold noTailroom
        split
        · exact setError_keeps upheld_packetBlind _
        · exact Keeps.throw (fun _ upheld => upheld)
      · exact Keeps.bind (forwardEdges_keeps (fun _ => burstTo_upheld _) _) (fun _ => Keeps.pure _)

/-- A state in which the VNI and the group of a port were written. -/
def VtepState.named (state : VtepState version) (i : Nat) (vni : BitVec 32)
    (multicastIp : Ip version) : VtepState version :=
  { state with
    ports :=
      update state.ports i { state.ports i with vni := vniField vni, multicastIp := multicastIp } }

/-- Elementary changes write no VNI and no group. -/
theorem PortChanges.named {tick : BitVec 64} {port after : VtepPort version} {keys : List MacKey}
    (changes : PortChanges tick port keys after) :
    after.vni = port.vni ∧ after.multicastIp = port.multicastIp := by
  induction changes with
  | refl => exact ⟨rfl, rfl⟩
  | tail _ change ih => cases change <;> exact ih

/-- Making the table of a new port is an elementary change. -/
theorem assertTable_upheld {which : PortTable version V} {flag : BitVec 32} {i : Nat}
    (changeable : Changeable start.vtepTick which flag)
    (make : ∀ world : VtepWorld ι version, Upheld inBurst start world →
      PortChange start.vtepTick (world.state.ports i) none
        (which.put (world.state.ports i) (.live (MacTable.zero V)))) :
    KeepsAlways (Upheld inBurst start) (assertTable which i : VtepM ι version Unit) := by
  intro world upheld
  have made := initTable_run which i world
  have spent : Upheld inBurst start { world with malloc := world.malloc.after 1 } :=
    ⟨upheld.config, upheld.idle, upheld.ports⟩
  unfold pgMacTableInit at made
  unfold assertTable
  cases granted : world.malloc 0 with
  | false =>
    rw [granted] at made
    rw [bind_of_ok made]
    exact spent.lost changeable i
  | true =>
    rw [granted] at made
    rw [bind_of_ok made]
    exact spent.withPort (make world upheld)

/-- Attaching a VNI names the port first. -/
theorem attachVni_upheld {multicastIp : Ip version} (multicast : pgIsMulticastIp multicastIp = true)
    (brick : Brick ι) (i : Nat) (vni : BitVec 32) (state : VtepState version) :
    Spec (fun world => world.state = state ∧ world.used = [])
      (attachVni brick i vni multicastIp : VtepM ι version Int)
      (fun _ => Upheld inBurst (state.named i vni multicastIp))
      (fun _ => Upheld inBurst (state.named i vni multicastIp)) := by
  have names : Spec (fun world => world.state = state ∧ world.used = []) (modifyPort i (fun port =>
            { port with vni := vniField vni, multicastIp := multicastIp }) :
          VtepM ι version Unit)
        (fun _ => Upheld inBurst (state.named i vni multicastIp))
        (fun _ => Upheld inBurst (state.named i vni multicastIp)) := by
    refine Spec.modify ?_
    rintro world ⟨rfl, unused⟩
    refine ⟨rfl, fun _ => unused, fun k => ?_⟩
    show PortChanges _ _ (usedAt world.used k) _
    rw [unused]
    exact .refl
  have attached {world : VtepWorld ι version}
      (upheld : Upheld inBurst (state.named i vni multicastIp) world) :
      (world.state.ports i).Attached := by
    have sameGroup := (upheld.ports i).named.2
    simp only [VtepState.named, update_self] at sameGroup
    unfold VtepPort.Attached
    rw [sameGroup]
    exact multicast
  have fills : Spec (fun world => world.state = state ∧ world.used = [])
        (fillPort i vni multicastIp : VtepM ι version Unit)
        (fun _ => Upheld inBurst (state.named i vni multicastIp))
        (fun _ => Upheld inBurst (state.named i vni multicastIp)) := by
    refine Spec.bind names (fun _ => ?_)
    exact Keeps.bind (assertTable_upheld (changeable_macToDst _) (fun _ _ => .make))
      (fun _ => assertTable_upheld (changeable_knownMac _)
        (fun _ upheld => .makeKnown (.inr (attached upheld))))
  refine Spec.bind fills (fun _ => ?_)
  refine Keeps.bind (multicastInternal_upheld _ _ _) (fun _ => ?_)
  exact Keeps.bind (upheld_of_stops (doAddMac_stops _ _)) (fun _ => Keeps.pure _)

/-- `pg_vtep_add_mac` makes elementary changes. -/
theorem pgVtepAddMac_upheld (vni : BitVec 32) (mac : BitVec 48) :
    KeepsAlways (Upheld inBurst start) (pgVtepAddMac brick vni mac : VtepM ι version Int) := by
  refine Keeps.read (fun world _ => ?_)
  split
  · exact Keeps.bind (setError_keeps upheld_packetBlind _) (fun _ => Keeps.pure _)
  · rename_i i _
    refine Keeps.tryCatch (Keeps.bind (doAddMac_stops i mac) (fun _ => Keeps.pure _))
      (fun reason => ?_)
    cases reason with
    | raised =>
      refine Spec.bind (dropTable_upheld (changeable_macToDst _)
        (fun _ stopped => ⟨stopped.1, fun _ => stopped.2 rfl⟩)) (fun _ => ?_)
      exact Keeps.bind (setError_keeps upheld_packetBlind _) (fun _ => Keeps.pure _)
    | freedTable | aborted abort => exact Spec.throw (fun _ stopped => stopped.1)

variable (portId : Int)

theorem portOfId_upheld :
    KeepsAlways (Upheld inBurst start) (portOfId brick portId : VtepM ι version (Option Nat)) := by
  refine Keeps.read (fun world _ => ?_)
  dsimp only
  split
  · exact Keeps.throw (fun _ upheld => upheld)
  split
  · exact Keeps.pure _
  split
  · exact Keeps.throw (fun _ upheld => upheld)
  · exact Keeps.pure _

/-- `pg_vtep_clean_all_mac` empties a table. -/
theorem pgVtepCleanAllMac_upheld :
    KeepsAlways (Upheld inBurst start) (pgVtepCleanAllMac brick portId : VtepM ι version Unit) := by
  refine Keeps.bind (portOfId_upheld _ _) (fun found => ?_)
  cases found with
  | none => exact Keeps.pure _
  | some i =>
    refine Spec.read (fun seen upheld => ?_)
    cases isSlot : macToDst.slot (seen.state.ports i) with
    | absent => exact Spec.pure (fun _ same => same ▸ upheld)
    | freed => exact Spec.throw (fun _ same => same ▸ upheld)
    | live table =>
      dsimp only
      cases cleared : pgMacTableClear table with
      | error reason => exact Spec.throw (fun _ same => same ▸ upheld)
      | ok after =>
        refine Spec.modify ?_
        rintro _ rfl
        exact upheld.withPort (.clear isSlot cleared)

/-- `pg_vtep_cleanup_mac` drops entries. -/
theorem pgVtepCleanupMac_upheld :
    KeepsAlways (Upheld inBurst start) (pgVtepCleanupMac brick portId : VtepM ι version Unit) := by
  refine Keeps.bind (portOfId_upheld _ _) (fun found => ?_)
  cases found with
  | none => exact Keeps.pure _
  | some i =>
    refine Spec.read (fun seen upheld => ?_)
    cases isSlot : (seen.state.ports i).macToDst with
    | absent => exact Spec.pure (fun _ same => same ▸ upheld)
    | freed => exact Spec.throw (fun _ same => same ▸ upheld)
    | live table =>
      dsimp only
      rw [upheld.tick]
      refine Spec.modify ?_
      rintro _ rfl
      exact upheld.withPort (.clean _ isSlot)

/-- What the elementary changes of an operation start from. -/
def VtepOp.Starts [DecidableEq ι] (brick : Brick ι) (state : VtepState version)
    (op : VtepOp ι version) (start : VtepState version) : Prop :=
  match op with
  | .burst _ _ _ _ => start = { state with vtepTick := state.vtepTick + 1#64 }
  | .addVni neighbor vni multicastIp =>
    start = state ∨ ∃ i, TakesVni brick state neighbor vni multicastIp i ∧
          start = state.named i vni multicastIp
  | _ => start = state

/-- Every operation starts with nothing learnt or sent to. -/
theorem upheld_refl (world : VtepWorld ι version) (unused : world.used = []) :
    Upheld inBurst world.state world := by
  refine ⟨rfl, fun _ => unused, fun i => ?_⟩
  rw [unused]
  exact .refl

/-- Every operation changes ports by elementary changes, however it ends. -/
theorem operation_upheld [DecidableEq ι] (host : VtepHost version) (op : VtepOp ι version)
    (around : Surroundings) :
    ∃ start, op.Starts brick host.state start ∧
        Upheld true start (finalState (op.run brick host around)) := by
  have begins (pkts : Nat → Mbuf) :
      Upheld true host.state (host.world around pkts : VtepWorld ι version) :=
    upheld_refl (host.world around pkts) rfl
  cases op with
  | burst fromSide edgeIndex pkts pktsMask =>
    refine ⟨_, rfl, ?_⟩
    show Upheld true _ (finalState (vtepBurst brick fromSide edgeIndex pktsMask
      (host.world around pkts)))
    rw [vtepBurst_eq]
    have ticked := @upheld_refl _ _ true (host.world around pkts : VtepWorld ι version).ticked rfl
    split
    · exact (fromVtep_upheld _ _ _).finalState ticked
    · exact (toVtep_upheld _ _ _ _).finalState ticked
  | addVni neighbor vni multicastIp =>
    let world : VtepWorld ι version := host.world around (fun _ => Mbuf.zero)
    show ∃ start, _ ∧
      Upheld true start (finalState (pgVtepAddVni brick neighbor vni multicastIp world))
    by_cases taken : ∃ i, TakesVni brick world.state neighbor vni multicastIp i
    · obtain ⟨i, takes⟩ := taken
      refine ⟨_, .inr ⟨i, takes, rfl⟩, ?_⟩
      rw [pgVtepAddVni_of_taken takes]
      exact (attachVni_upheld takes.multicast brick i vni _).finalState ⟨rfl, rfl⟩
    · obtain ⟨failure, fails⟩ := pgVtepAddVni_of_refused (not_exists.mp taken)
      refine ⟨host.state, .inl rfl, ?_⟩
      rw [fails]
      exact upheld_refl { world with errp := some failure } rfl
  | addMac vni mac =>
    exact ⟨host.state, rfl, (pgVtepAddMac_upheld brick vni mac).finalState (begins _)⟩
  | cleanAllMac portId =>
    refine ⟨host.state, rfl, KeepsAlways.finalState ?_ (begins _)⟩
    exact Keeps.bind (pgVtepCleanAllMac_upheld _ _) (fun _ => Keeps.pure _)
  | cleanupMac portId =>
    refine ⟨host.state, rfl, KeepsAlways.finalState ?_ (begins _)⟩
    exact Keeps.bind (pgVtepCleanupMac_upheld _ _) (fun _ => Keeps.pure _)

/-- Taking a VNI back changes tables, and then may clear the port. -/
theorem doRemoveVni_upheld (i : Nat) :
    Spec (Upheld inBurst start) (doRemoveVni brick i : VtepM ι version Unit) (fun _ left =>
        Upheld inBurst start left ∧ (left.errp = none → ¬ (left.state.ports i).Attached) ∨ ∃ middle,
            Upheld inBurst start middle ∧ left = middle.withPort i (VtepPort.zero version))
      (fun _ => Upheld inBurst start) := by
  refine Spec.read (fun seen upheld => ?_)
  dsimp only
  split
  · rename_i bare
    exact Spec.pure (fun _ same => same ▸ .inl ⟨upheld, fun _ => bare⟩)
  refine Spec.bind ((multicastInternal_upheld brick _ .unsubscribe).startingAt upheld)
    (fun _ => Spec.read (fun reported upheld => ?_))
  split
  · rename_i failed
    refine Spec.pure ?_
    rintro _ rfl
    refine .inl ⟨upheld, fun noError => ?_⟩
    rw [noError] at failed
    cases failed
  · refine Spec.startingAt ?_ upheld
    have frees {V : Type} {which : PortTable version V} {flag : BitVec 32}
        (changeable : Changeable start.vtepTick which flag) : KeepsAlways (Upheld inBurst start)
          (freeUnlessDead which flag i : VtepM ι version Unit) := by
      refine Keeps.read (fun world _ => ?_)
      split
      · exact Keeps.pure _
      · exact freeTable_upheld changeable i
    refine Spec.bind (frees (changeable_knownMac _)) (fun _ => ?_)
    refine Spec.bind (frees (changeable_macToDst _)) (fun _ => ?_)
    exact Spec.modify (fun middle upheld => .inr ⟨middle, upheld, rfl⟩)

end Management

end PacketGraph
