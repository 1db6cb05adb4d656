import PacketGraph.MacTable.Runs
import PacketGraph.Vtep.Management
import PacketGraph.Vtep.Runs

namespace PacketGraph

open BitScan Effects Function TransitionSystem

/-!
# Tables that were freed are flagged, and never used

Three exception handlers free tables and overwrite the flags of ports.  The
handler of `to_vtep` finds the one port it is for in order and leaves it so.
That of `from_vtep` goes through all ports below `nb`: it needs them all to
have a VNI and no dead table.  That of `pg_vtep_add_mac` frees the wrong
table.

In runs whose operations keep away from these cases, and write to tables only
where they are not flagged as dead, the flags of every port are true and no
freed table is used.
-/

variable {ι τ : Type} {version : IpVersion}

/--
A vtep that runs has sound ports, and one that stopped has ended the program
or run into a fault without using a freed table.
-/
structure HostSound (host : VtepHost version) : Prop where
  ports : host.stopped = none → ∀ i, PortSound (host.state.ports i)
  stops : ∀ reason, host.stopped = some reason → ∃ abort, reason = .aborted abort

variable {succeed : Bool} {host : VtepHost version}

/-- The world of an operation is as steady as the vtep. -/
theorem VtepHost.steady {holds : Nat → VtepPort version → Prop} {around : Surroundings}
    (ports : ∀ i, holds i (host.state.ports i))
    (allocs : succeed = true → ∀ call, around.malloc call = true) (pkts : Nat → Mbuf) :
    Steady holds succeed host.state.flags (host.world around pkts : VtepWorld ι version) :=
  ⟨ports, allocs, rfl⟩

variable {world : VtepWorld ι version}

/-- A vtep that ran is sound if its operation left sound ports. -/
theorem HostSound.left {α : Type} {program : VtepM ι version α} {pre : VtepWorld ι version → Prop}
    {flags : BitVec 32}
    (spec : Spec pre program (fun _ => Steady (fun _ port => PortSound port) succeed flags)
        AbortStop) (start : pre world) (running : host.stopped = none) :
    HostSound (host.left (program world)) := by
  cases ran : program world with
  | ok value after =>
    have steady := spec.returned start ran
    refine ⟨fun _ => steady.ports, fun reason stopped => ?_⟩
    change host.stopped = some reason at stopped
    rw [running] at stopped
    exact absurd stopped (by simp)
  | error reason after =>
    have aborted := spec.stopped start ran
    refine ⟨fun stopped => absurd stopped (by simp [VtepHost.left]), ?_⟩
    intro other same
    rw [← Option.some.inj same]
    exact aborted

/-- A burst does what the handler of its side does. -/
theorem vtepBurst_steps {holds after : Nat → VtepPort version → Prop} {flags : BitVec 32}
    {output : Side} {brick : Brick ι} {fromSide : Side} {edgeIndex : Nat} {pktsMask : BitVec 64}
    (inward : fromSide = output → Spec (Steady holds succeed flags) (fromVtep brick fromSide
        pktsMask : VtepM ι version Int) (fun _ => Steady after succeed flags) AbortStop)
    (outward : fromSide ≠ output → Spec (Steady holds succeed flags) (toVtep brick fromSide
        edgeIndex pktsMask : VtepM ι version Int) (fun _ => Steady after succeed flags) AbortStop) :
    Spec (fun world => Steady holds succeed flags world ∧ world.state.output = output)
      (vtepBurst brick fromSide edgeIndex pktsMask : VtepM ι version Int)
      (fun _ => Steady after succeed flags) AbortStop := by
  rintro world ⟨steady, rfl⟩
  have ticked : Steady holds succeed flags world.ticked :=
    ⟨steady.ports, steady.allocs, steady.flags⟩
  rw [vtepBurst_eq]
  by_cases isOutput : fromSide = world.state.output
  · rw [if_pos isOutput]
    exact inward isOutput _ ticked
  · rw [if_neg isOutput]
    exact outward isOutput _ ticked

/-- What an operation has to find for the flags to stay true. -/
def VtepOp.Careful (brick : Brick ι) (host : VtepHost version) (op : VtepOp ι version)
    (around : Surroundings) : Prop :=
  match op with
  | .burst fromSide _ _ _ =>
    fromSide = host.state.output → (∀ call, around.malloc call = true) ∨
        ∀ i < (brick.sides (pgFlipSide fromSide)).nb,
          (host.state.ports i).Attached ∧ PortAlive (host.state.ports i)
  | .addVni _ _ _ => ∀ call, around.malloc call = true
  | .addMac vni _ =>
    (∀ call, around.malloc call = true) ∧ ∀ i, portOfVni brick host.state vni = some i →
        (host.state.ports i).isDead isKnownMacDead = false
  | .cleanAllMac portId => CleanableAt brick host.state portId
  | .cleanupMac portId => CleanableAt brick host.state portId

section Steps

variable {brick : Brick ι} {host : VtepHost version} {around : Surroundings}

/-- A careful burst leaves sound ports. -/
theorem burst_sound (ports : ∀ i, PortSound (host.state.ports i)) (running : host.stopped = none)
    {fromSide : Side} {edgeIndex : Nat} {pkts : Nat → Mbuf} {pktsMask : BitVec 64}
    (careful : VtepOp.Careful brick host (.burst fromSide edgeIndex pkts pktsMask) around) :
    HostSound (host.left (vtepBurst brick fromSide edgeIndex pktsMask
          (host.world around pkts))) := by
  have sound : ∀ (_ : Nat) (port : VtepPort version), PortSound port → PortSound port :=
    fun _ _ isSound => isSound
  by_cases isOutput : fromSide = host.state.output
  · rcases careful isOutput with allocs | opened
    · have inward : Spec (Steady (fun _ port => PortSound port) true host.state.flags)
            (fromVtep brick fromSide pktsMask : VtepM ι version Int) (fun _ =>
              Steady (fun _ port => PortSound port) true host.state.flags)
            AbortStop :=
        fromVtep_steps portRule_sound sound sound (fun fails => absurd fails (by decide)) pktsMask
      exact HostSound.left (vtepBurst_steps (fun _ => inward) (fun other => absurd isOutput other))
        ⟨host.steady ports (fun _ => allocs) pkts, rfl⟩ running
    · let below (i : Nat) := i ∈ List.range (brick.sides (pgFlipSide fromSide)).nb
      have inward : Spec (Steady (SoundAndOpen below) false host.state.flags)
            (fromVtep brick fromSide pktsMask : VtepM ι version Int) (fun _ =>
              Steady (fun _ port => PortSound port) false host.state.flags)
            AbortStop :=
        fromVtep_steps (portRule_soundAndOpen below) (fun _ _ both => both.1)
          (fun _ _ both => both.1) (fun _ => dropMacToDst_steps List.nodup_range) pktsMask
      have start (i : Nat) : SoundAndOpen below i (host.state.ports i) := by
        refine ⟨ports i, fun isBelow => ?_⟩
        obtain ⟨attached, alive⟩ := opened i (List.mem_range.mp isBelow)
        exact (ports i).isOpen attached alive
      exact HostSound.left (vtepBurst_steps (fun _ => inward) (fun other => absurd isOutput other))
        ⟨host.steady start (fun fails => absurd fails Bool.false_ne_true) pkts, rfl⟩ running
  · have outward : Spec (Steady (fun _ port => PortSound port) false host.state.flags)
          (toVtep brick fromSide edgeIndex pktsMask : VtepM ι version Int) (fun _ =>
            Steady (fun _ port => PortSound port) false host.state.flags)
          AbortStop :=
      toVtep_steps portRule_sound sound
        (fun _ _ _ isOpen => portSound_dropKnownMac isOpen) brick fromSide pktsMask
    exact HostSound.left (vtepBurst_steps (fun same => absurd same isOutput) (fun _ => outward))
      ⟨host.steady ports (fun fails => absurd fails Bool.false_ne_true) pkts, rfl⟩ running

/-- A careful operation leaves sound ports. -/
theorem operation_sound [DecidableEq ι] (holds : HostSound host) (running : host.stopped = none)
    {op : VtepOp ι version} (careful : VtepOp.Careful brick host op around) :
    HostSound (host.left (op.run brick host around)) := by
  have ports := holds.ports running
  have sound : ∀ (_ : Nat) (port : VtepPort version), PortSound port → PortSound port :=
    fun _ _ isSound => isSound
  cases op with
  | burst fromSide edgeIndex pkts pktsMask => exact burst_sound ports running careful
  | addVni neighbor vni multicastIp =>
    refine HostSound.left (pgVtepAddVni_steps portRule_sound sound
        (fun i next macs known _ multicast _ => (portOpen_fresh multicast vni macs known).sound))
      ⟨host.steady ports (fun _ => careful) _, rfl⟩ running
  | addMac vni mac =>
    exact HostSound.left (pgVtepAddMac_steps portRule_sound sound brick vni mac)
      ⟨host.steady ports (fun _ => careful.1) _, careful.2⟩ running
  | cleanAllMac portId =>
    refine HostSound.left (Spec.bind (pgVtepCleanAllMac_steps portRule_sound sound brick portId)
        (fun _ => Spec.pure (fun _ post => post)))
      ⟨host.steady ports (fun fails => absurd fails Bool.false_ne_true) _, careful⟩ running
  | cleanupMac portId =>
    refine HostSound.left (Spec.bind (pgVtepCleanupMac_steps portRule_sound sound brick portId)
        (fun _ => Spec.pure (fun _ post => post)))
      ⟨host.steady ports (fun fails => absurd fails Bool.false_ne_true) _, careful⟩ running

end Steps

/-- A link that breaks frees the tables of its port and clears its flags. -/
theorem notified_sound (holds : HostSound host) (running : host.stopped = none) (brick : Brick ι)
    (side : Side) (index : Nat) : HostSound (host.left (host.notified brick side index)) := by
  have steps : Spec (Steady (fun _ port => PortSound port) false host.state.flags)
        (vtepUnlinkNotify brick side index : VtepM ι version Unit) (fun _ =>
          Steady (fun _ port => PortSound port) false host.state.flags)
        AbortStop :=
    vtepUnlinkNotify_steps (fun _ _ sound => sound) portSound_zero brick side
  exact HostSound.left steps (host.steady (holds.ports running)
      (fun fails => absurd fails Bool.false_ne_true) _) running

theorem unlinkNotify_sound (holds : HostSound host) (brick : Brick ι) (side : Side) (index : Nat) :
    HostSound ((vtepOps ι version).unlinkNotify brick host side index).1 := by
  show HostSound (ite _ _ _ : _ × _).1
  cases running : host.stopped with
  | some reason => exact holds
  | none =>
    obtain ⟨ports, stops⟩ := notified_sound holds running brick side index
    exact ⟨ports, stops⟩

/--
In every run whose operations are careful, a vtep that runs has true flags on
every port with a VNI, and none ever stopped at a freed table or by an
exception that no handler was there for.
-/
theorem vtep_flags_true [DecidableEq ι] [Fintype ι] {others : BrickOps ι τ}
    {graph : Graph ι (Node (VtepHost version) τ)}
    (reachable : ((vtepSystem others).guarded (OperatesUnder VtepOp.Careful)).Reachable graph)
    {target : ι} {host : VtepHost version} (isVtep : graph.priv target = .own host) :
    host.stopped ≠ some .freedTable ∧ host.stopped ≠ some .raised ∧
      (host.stopped = none → ∀ i, (host.state.ports i).Attached →
          ((host.state.ports i).isDead isMacToDstDead = true ↔
              (host.state.ports i).macToDst = .freed) ∧
            ((host.state.ports i).isDead isKnownMacDead = true ↔
              (host.state.ports i).knownMac = .freed)) := by
  have nodes : NodeGraph (fun _ host => HostSound host) graph := by
    refine vtepGraph_of_reachable ?_ ?_ ?_ ?_ reachable
    · intro brick output ip mac udpDstPort flags leaves _ _
      exact ⟨fun _ _ => portSound_zero, fun reason stopped => absurd stopped (by simp)⟩
    · exact fun _ _ _ _ _ _ holds _ => holds
    · exact ⟨fun holds _ => unlinkNotify_sound holds _ _ _,
        fun holds _ _ => unlinkNotify_sound holds _ _ _⟩
    · exact fun _ _ _ _ _ holds running _ careful => operation_sound holds running careful
  have holds := nodes.nodes target host isVtep
  refine ⟨fun stopped => ?_, fun stopped => ?_, fun running i attached => ?_⟩
  · obtain ⟨abort, isAbort⟩ := holds.stops _ stopped
    exact absurd isAbort (by simp)
  · obtain ⟨abort, isAbort⟩ := holds.stops _ stopped
    exact absurd isAbort (by simp)
  · have sound := holds.ports running i
    exact ⟨(sound.macToDst attached).2, (sound.knownMac attached).2⟩

/-- A failing `pg_vtep_add_mac` flags one table and frees the other. -/
theorem pgVtepAddMac_of_raised {brick : Brick ι} {i : Nat} {vni : BitVec 32} {mac : BitVec 48}
    {known after : MacTable Unit} {malloc : Malloc} {macs empty : MacTable (DestAddresses version)}
    (found : portOfVni brick world.state vni = some i)
    (isKnown : (world.state.ports i).knownMac = .live known)
    (isMacs : (world.state.ports i).macToDst = .live macs)
    (raised : macTableSet world.malloc known (mac.setWidth 64) () = (.raised after, malloc))
    (cleared : pgMacTableClear macs = .ok empty) :
    ∃ left, pgVtepAddMac brick vni mac world = .ok (-1) left ∧ left.state.ports i =
          { world.state.ports i with
            knownMac := .live after
            macToDst := .freed
            deadTables := isKnownMacDead } := by
  let failed := world.withTable malloc knownMac i (.live after)
  have adds : doAddMac i mac world = .error .raised failed := by
    unfold doAddMac
    rw [setInTable_run]
    have isSlot : knownMac.slot (world.state.ports i) = .live known := isKnown
    rw [isSlot]
    simp only [raised]
    rfl
  have stillThere : macToDst.slot (failed.state.ports i) = .live macs := by
    simp only [failed, VtepWorld.withTable, ports_withPort_self]
    exact isMacs
  have drops := dropTable_run macToDst (fun _ _ => rfl) isKnownMacDead i failed stillThere
  rw [cleared] at drops
  have handled : pgVtepAddMac brick vni mac world = (do
          dropTable macToDst isKnownMacDead i
          setError (noMemory "not enouth space to add mac")
          pure (-1) : VtepM ι version Int) failed := by
    refine (bind_get _ _).trans ?_
    rw [found]
    show EStateM.tryCatch (EStateM.bind (doAddMac i mac) _) _ world = _
    unfold EStateM.tryCatch EStateM.bind
    rw [adds]
    rfl
  have left : (do
        dropTable macToDst isKnownMacDead i
        setError (noMemory "not enouth space to add mac")
        pure (-1) : VtepM ι version Int) failed =
        .ok (-1) { failed.withPort i { world.state.ports i with
                knownMac := .live after
                macToDst := .freed
                deadTables := isKnownMacDead } with
            errp := some (noMemory "not enouth space to add mac") } := by
    show EStateM.bind (dropTable macToDst isKnownMacDead i) _ failed = _
    unfold EStateM.bind
    rw [drops]
    simp only [failed, VtepWorld.withTable, ports_withPort_self]
    rfl
  exact ⟨_, handled.trans left, update_self ..⟩

/-- A frame whose source cannot be remembered flags and frees `known_mac`. -/
theorem toVtep_of_raised {brick : Brick ι} {fromSide : Side} {i : Nat} {pktsMask : BitVec 64}
    {left : VtepWorld ι version} {known empty : MacTable Unit}
    (checks : world.state.noInnermacCheck = false)
    (raised : encapsulateBurst brick fromSide i pktsMask world = .error .raised left)
    (isKnown : (left.state.ports i).knownMac = .live known)
    (cleared : pgMacTableClear known = .ok empty) :
    ∃ last, toVtep brick fromSide i pktsMask world = .ok (-1) last ∧
      last.state.ports i =
        { left.state.ports i with
          knownMac := .freed
          deadTables := isKnownMacDead ||| hasBeenBroken } := by
  have drops := dropTable_run knownMac (fun _ _ => rfl) (isKnownMacDead ||| hasBeenBroken) i left
    isKnown
  rw [cleared] at drops
  have handled : toVtep brick fromSide i pktsMask world = (do
          dropTable knownMac (isKnownMacDead ||| hasBeenBroken) i
          freeOutPkts pktsMask
          setError (noMemory "not enouth space to add mac")
          pure (-1) : VtepM ι version Int) left := by
    refine (bind_get _ _).trans ?_
    rw [checks]
    show EStateM.tryCatch (encapsulateBurst brick fromSide i pktsMask) _ world = _
    unfold EStateM.tryCatch
    rw [raised]
    rfl
  refine ⟨_, handled.trans (bind_of_ok drops _), ?_⟩
  dsimp only
  split <;> exact ports_withPort_self left i _

/-- The bricks of a small program: a vtep and a hub. -/
def vtepHubConfig : Bool → BrickConfig
  | false => { name := "vtep", westMax := 1, eastMax := 2, type := .multipole }
  | true => { name := "hub", westMax := 2, eastMax := 2, type := .multipole }

/-- Surroundings in which nothing fails but the allocation of packets. -/
def calmSurroundings : Surroundings where
  malloc := fun _ => true
  clones := fun _ => some 0#64
  allocs := fun _ => none
  answers := fun _ => 0
  errors := fun _ => none
  back := fun _ _ => false

/-- The vtep of the program in some state. -/
def calmHost (state : VtepState .v4) : VtepHost .v4 where
  state := state
  leaves := fun _ => calmSurroundings
  stopped := none

/-- The program before any call. -/
def vtepHubStart : Graph Bool (Node (VtepHost .v4) Unit) where
  brick := fun which => { blankBrick Bool (vtepHubConfig which) with
      west :=
        { max := (vtepHubConfig which).westMax
          nb := 0
          edges := freshEdges Bool .multipole (vtepHubConfig which).westMax }
      east :=
        { max := (vtepHubConfig which).eastMax
          nb := 0
          edges := freshEdges Bool .multipole (vtepHubConfig which).eastMax } }
  priv
    | false => .own (calmHost (vtepInit .west 0#32 0#48 0#16 0#32))
    | true => .other ()

/-- The hub is linked to the inner side of the vtep. -/
def vtepHubLinked : Graph Bool (Node (VtepHost .v4) Unit) :=
  vtepHubStart.after (nodeOps (vtepOps Bool .v4) (quietOps Bool)) (.link (some false) (some true))

/-- A multicast group. -/
def exampleGroup : Ip .v4 :=
  0xE0#32

/-- VNI 1 is attached to the port of the hub. -/
def attachVniOne : VtepOp Bool .v4 :=
  .addVni (some true) 1#32 exampleGroup

/-- The vtep after VNI 1 was attached to the port of the hub. -/
def attachedVtep : VtepHost .v4 :=
  (calmHost (vtepInit .west 0#32 0#48 0#16 0#32)).left (attachVniOne.run (vtepHubLinked.brick false)
      (calmHost (vtepInit .west 0#32 0#48 0#16 0#32)) calmSurroundings)

/-- The program after VNI 1 was attached. -/
def vtepHubAttached : Graph Bool (Node (VtepHost .v4) Unit) :=
  { vtepHubLinked with priv := update vtepHubLinked.priv false (.own attachedVtep) }

theorem vtepHubStart_initial : (vtepSystem (quietOps Bool)).initial vtepHubStart := by
  intro which
  cases which with
  | false => exact .inl ⟨"vtep", 2, .west, 0#32, 0#48, 0#16, 0#32, _, _, rfl, rfl⟩
  | true =>
    exact .inr ⟨[{ name := "hub", stateSize := 1, init := fun _ _ => .ok () }],
        some "hub", some (vtepHubConfig true), (), rfl, rfl⟩

theorem vtepHubLinked_reachable :
    ((vtepSystem (quietOps Bool)).guarded (OperatesUnder VtepOp.Careful)).Reachable vtepHubLinked :=
  .step (.call (.link (some false) (some true))) (.initial vtepHubStart_initial)
    ⟨trivial, none, rfl⟩

theorem vtepHubAttached_reachable :
    ((vtepSystem (quietOps Bool)).guarded (OperatesUnder VtepOp.Careful)).Reachable
      vtepHubAttached :=
  .step (.operate false attachVniOne calmSurroundings) vtepHubLinked_reachable
    ⟨fun _ _ _ => rfl, _, rfl, rfl, trivial, rfl⟩

/-- No memory is left. -/
def starvedSurroundings : Surroundings :=
  { calmSurroundings with malloc := fun _ => false }

/-- A frame with an unknown source comes in on the port of the hub. -/
def starvedFrame : VtepOp Bool .v4 :=
  .burst .east 0 (fun _ => { Mbuf.zero with dataOff := 50, dataLen := 14 }) 1#64

/-- The world in which the frame is handled. -/
def starvedWorld : VtepWorld Bool .v4 :=
  (attachedVtep.world starvedSurroundings starvedFrame.pkts).ticked

/-- The source of the frame needs a sub-table, for which there is no memory. -/
theorem starvedWorld_raises :
    ∃ left known, encapsulateBurst (vtepHubAttached.brick false) .east 0 1#64 starvedWorld =
        .error .raised left ∧
      (left.state.ports 0).knownMac = .live known ∧
      known.WellFormed ∧
      (left.state.ports 0).Attached ∧
      (left.state.ports 0).macToDst = .live (freshTable (DestAddresses .v4)).table := by
  refine ⟨_, _, rfl, rfl, ?_, ?_, ?_⟩
  · have stored : (macTableSet (fun _ => true) (freshTable Unit).table
          (broadcastMac.setWidth 64) ()).1 = .stored _ :=
      rfl
    have formed := (macTableSet_eq_stored emptyTable_wellFormed stored).1
    exact (macTableSet_eq_raised formed (show (macTableSet (fun _ => false) _ 0#64 ()).1 =
      .raised _ from rfl)).1
  · show (attachedVtep.state.ports 0).Attached
    decide +kernel
  · rfl

/-- After a failed allocation the table is freed, and it is flagged as dead. -/
theorem vtep_flags_true_starved :
    ∃ (graph : Graph Bool (Node (VtepHost .v4) Unit)) (host : VtepHost .v4),
      ((vtepSystem (quietOps Bool)).guarded (OperatesUnder VtepOp.Careful)).Reachable graph ∧
      graph.priv false = .own host ∧
      host.stopped = none ∧
      (host.state.ports 0).Attached ∧
      (host.state.ports 0).isDead isKnownMacDead = true ∧
      (host.state.ports 0).knownMac = .freed ∧
      (host.state.ports 0).macToDst ≠ .freed := by
  obtain ⟨left, known, raised, isKnown, formed, isAttached, isMacs⟩ := starvedWorld_raises
  have checks : starvedWorld.state.noInnermacCheck = false := by decide +kernel
  obtain ⟨empty, cleared, _⟩ := pgMacTableClear_spec formed
  obtain ⟨last, ran, isPort⟩ := toVtep_of_raised checks raised isKnown cleared
  have runs : starvedFrame.run (vtepHubAttached.brick false) attachedVtep starvedSurroundings =
        .ok (-1) last := by
    refine (vtepBurst_eq _ _ _ _ _).trans ?_
    rw [if_neg (by decide +kernel)]
    exact ran
  have reachable : ((vtepSystem (quietOps Bool)).guarded (OperatesUnder VtepOp.Careful)).Reachable
        { vtepHubAttached with
          priv := update vtepHubAttached.priv false
            (.own { attachedVtep with state := last.state }) } := by
    refine .step (.operate false starvedFrame starvedSurroundings) vtepHubAttached_reachable
      ⟨?_, attachedVtep, rfl, rfl, ?_, ?_⟩
    · rintro host isHost isOutput
      cases isHost
      exact absurd isOutput (by decide +kernel)
    · show ((vtepHubAttached.brick false).linkAt .east 0).isSome = true
      decide +kernel
    · rw [runs]
      rfl
  have attached : (last.state.ports 0).Attached := by
    rw [isPort]
    exact isAttached
  have flags := (vtep_flags_true reachable (update_self ..)).2.2 rfl 0 attached
  have dead : (last.state.ports 0).isDead isKnownMacDead = true := by
    rw [isPort, isDead_knownMac]
    show (isKnownMacDead ||| hasBeenBroken).getLsbD 1 = true
    decide
  refine ⟨_, _, reachable, rfl, rfl, attached, dead, flags.2.mp dead, ?_⟩
  show (last.state.ports 0).macToDst ≠ .freed
  rw [isPort]
  simp [isMacs]

/--
A failing `pg_vtep_add_mac` flags `known_mac` as dead, which it keeps, and
frees `mac_to_dst` without flagging it.
-/
theorem add_mac_flags_wrong_table :
    ∃ (graph : Graph Bool (Node (VtepHost .v4) Unit)) (host : VtepHost .v4),
      (vtepSystem (quietOps Bool)).Reachable graph ∧ graph.priv false = .own host ∧
        host.stopped = none ∧
        (host.state.ports 0).Attached ∧
        (host.state.ports 0).isDead isKnownMacDead = true ∧
        (host.state.ports 0).knownMac ≠ .freed ∧
        (host.state.ports 0).isDead isMacToDstDead = false ∧
        (host.state.ports 0).macToDst = .freed := by
  let world : VtepWorld Bool .v4 := attachedVtep.world starvedSurroundings (fun _ => Mbuf.zero)
  have found : portOfVni (vtepHubLinked.brick false) attachedVtep.state 1#32 = some 0 := by
    decide +kernel
  have isAttached : (attachedVtep.state.ports 0).Attached := by decide +kernel
  have isMacs : (world.state.ports 0).macToDst = .live (freshTable (DestAddresses .v4)).table := rfl
  obtain ⟨empty, cleared, _⟩ := pgMacTableClear_spec emptyTable_wellFormed
  have raised : ∃ known after malloc, (world.state.ports 0).knownMac = .live known ∧
          macTableSet world.malloc known ((2#48).setWidth 64) () = (.raised after, malloc) :=
    ⟨_, _, _, rfl, rfl⟩
  obtain ⟨known, after, malloc, isKnown, raises⟩ := raised
  obtain ⟨left, ran, isPort⟩ := pgVtepAddMac_of_raised found isKnown isMacs raises cleared
  have failed : (vtepSystem (quietOps Bool)).Reachable { vtepHubAttached with
          priv := update vtepHubAttached.priv false
            (.own { attachedVtep with state := left.state }) } := by
    refine .step (.operate false (.addMac 1#32 2#48) starvedSurroundings)
      vtepHubAttached_reachable.of_guarded ⟨attachedVtep, rfl, rfl, trivial, ?_⟩
    show _ = { vtepHubAttached with
      priv := update vtepHubAttached.priv false (.own (attachedVtep.left
          (pgVtepAddMac (vtepHubLinked.brick false) 1#32 2#48 world))) }
    rw [ran]
    rfl
  refine ⟨_, _, failed, rfl, rfl, ?_, ?_, ?_, ?_, ?_⟩
  · show VtepPort.Attached (left.state.ports 0)
    rw [isPort]
    exact isAttached
  · rw [isPort, isDead_knownMac]
    show isKnownMacDead.getLsbD 1 = true
    decide
  · rw [isPort]
    simp
  · rw [isPort, isDead_macToDst]
    show isKnownMacDead.getLsbD 0 = false
    decide
  · rw [isPort]

end PacketGraph
