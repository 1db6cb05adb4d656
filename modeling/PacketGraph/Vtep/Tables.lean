import PacketGraph.Vtep.Frame

namespace PacketGraph

open BitScan BitVec Effects Function

/-!
# The MAC tables of ports over the operations of a vtep

A port has both tables exactly if a VNI is attached to it, and a table that
was freed is flagged as dead.  The flags are what keeps the operations from
using freed tables: a table is made again before it is used.

`Steady` says of a world that all its ports have a property, and that no
allocation fails if that is assumed.  The steps of an operation keep every
property of ports that survives writing to live tables and making dead ones
again.
-/

variable {ι V : Type} {version : IpVersion}

section Ports

/-- Is a VNI attached to a port?  The VNI itself may be zero. -/
def VtepPort.Attached (port : VtepPort version) : Prop :=
  pgIsMulticastIp port.multicastIp = true

instance (port : VtepPort version) : Decidable port.Attached := by
  unfold VtepPort.Attached
  infer_instance

/-- A table that is there and flagged as dead exactly if it was freed. -/
def TableSound (slot : TableSlot V) (dead : Bool) : Prop :=
  slot ≠ .absent ∧ (dead = true ↔ slot = .freed)

/-- An attached port has sound tables, and another port is untouched. -/
structure PortSound (port : VtepPort version) : Prop where
  macToDst : port.Attached → TableSound port.macToDst (port.isDead isMacToDstDead)
  knownMac : port.Attached → TableSound port.knownMac (port.isDead isKnownMacDead)
  bare : ¬ port.Attached → port = VtepPort.zero version

/-- No table of a port is flagged as dead. -/
def PortAlive (port : VtepPort version) : Prop :=
  port.isDead isMacToDstDead = false ∧ port.isDead isKnownMacDead = false

/-- An attached port whose tables are both in use. -/
structure PortOpen (port : VtepPort version) : Prop where
  attached : port.Attached
  macToDst : ∃ table, port.macToDst = .live table
  knownMac : ∃ table, port.knownMac = .live table
  alive : PortAlive port

variable (port : VtepPort version)

/-- The flag of `mac_to_dst` is bit 0. -/
theorem isDead_macToDst : port.isDead isMacToDstDead = port.deadTables.getLsbD 0 := by
  have flag : isMacToDstDead = BitVec.twoPow 32 0 := by decide
  unfold VtepPort.isDead
  rw [flag, and_twoPow]
  cases port.deadTables.getLsbD 0 <;> decide

/-- The flag of `known_mac` is bit 1. -/
theorem isDead_knownMac : port.isDead isKnownMacDead = port.deadTables.getLsbD 1 := by
  have flag : isKnownMacDead = BitVec.twoPow 32 1 := by decide
  unfold VtepPort.isDead
  rw [flag, and_twoPow]
  cases port.deadTables.getLsbD 1 <;> decide

/-- A port without dead tables is not to be fixed. -/
theorem areMacTablesDead_eq :
    areMacTablesDead port = (port.isDead isMacToDstDead || port.isDead isKnownMacDead) := by
  rw [isDead_macToDst, isDead_knownMac]
  unfold areMacTablesDead VtepPort.isDead
  have split : port.deadTables &&& (isMacToDstDead ||| isKnownMacDead) =
        (port.deadTables &&& BitVec.twoPow 32 0) ||| (port.deadTables &&& BitVec.twoPow 32 1) := by
    rw [← BitVec.and_or_distrib_left]
    rfl
  rw [split, and_twoPow, and_twoPow]
  cases port.deadTables.getLsbD 0 <;> cases port.deadTables.getLsbD 1 <;> decide

/-- Flipping the flag of `mac_to_dst` leaves the other one alone. -/
theorem getLsbD_xor_isMacToDstDead (deadTables : BitVec 32) :
    (deadTables ^^^ isMacToDstDead).getLsbD 0 = !deadTables.getLsbD 0 ∧
      (deadTables ^^^ isMacToDstDead).getLsbD 1 = deadTables.getLsbD 1 := by
  simp [isMacToDstDead]

theorem getLsbD_xor_isKnownMacDead (deadTables : BitVec 32) :
    (deadTables ^^^ isKnownMacDead).getLsbD 0 = deadTables.getLsbD 0 ∧
      (deadTables ^^^ isKnownMacDead).getLsbD 1 = !deadTables.getLsbD 1 := by
  simp [isKnownMacDead]

/-- A zeroed port has no VNI. -/
theorem not_attached_zero : ¬ (VtepPort.zero version).Attached := by
  cases version <;> decide

/-- A zeroed port is sound. -/
theorem portSound_zero : PortSound (VtepPort.zero version) where
  macToDst := fun attached => absurd attached not_attached_zero
  knownMac := fun attached => absurd attached not_attached_zero
  bare := fun _ => rfl

variable {port : VtepPort version}

/-- An open port is sound. -/
theorem PortOpen.sound (isOpen : PortOpen port) : PortSound port := by
  obtain ⟨attached, ⟨macs, isMacs⟩, ⟨known, isKnown⟩, macsAlive, knownAlive⟩ := isOpen
  refine ⟨fun _ => ?_, fun _ => ?_, fun bare => absurd attached bare⟩
  · rw [isMacs, macsAlive]
    exact ⟨by simp, by simp⟩
  · rw [isKnown, knownAlive]
    exact ⟨by simp, by simp⟩

section

variable (sound : PortSound port)

include sound

/-- A sound port that is attached and alive is open. -/
theorem PortSound.isOpen (attached : port.Attached) (alive : PortAlive port) : PortOpen port := by
  obtain ⟨macsThere, macsDead⟩ := sound.macToDst attached
  obtain ⟨knownThere, knownDead⟩ := sound.knownMac attached
  obtain ⟨macsAlive, knownAlive⟩ := alive
  refine ⟨attached, ?_, ?_, macsAlive, knownAlive⟩
  · rw [macsAlive] at macsDead
    cases isMacs : port.macToDst with
    | absent => exact absurd isMacs macsThere
    | live table => exact ⟨table, rfl⟩
    | freed => exact absurd (macsDead.mpr isMacs) (by simp)
  · rw [knownAlive] at knownDead
    cases isKnown : port.knownMac with
    | absent => exact absurd isKnown knownThere
    | live table => exact ⟨table, rfl⟩
    | freed => exact absurd (knownDead.mpr isKnown) (by simp)

/-- A table of a sound port that is not flagged as dead was not freed. -/
theorem PortSound.macToDst_not_freed (alive : port.isDead isMacToDstDead = false)
    : port.macToDst ≠ .freed := by
  intro freed
  by_cases attached : port.Attached
  · have dead := (sound.macToDst attached).2.mpr freed
    rw [alive] at dead
    exact absurd dead (by simp)
  · rw [sound.bare attached] at freed
    exact absurd freed (by simp [VtepPort.zero])

theorem PortSound.knownMac_not_freed (alive : port.isDead isKnownMacDead = false)
    : port.knownMac ≠ .freed := by
  intro freed
  by_cases attached : port.Attached
  · have dead := (sound.knownMac attached).2.mpr freed
    rw [alive] at dead
    exact absurd dead (by simp)
  · rw [sound.bare attached] at freed
    exact absurd freed (by simp [VtepPort.zero])

/-- A sound port without dead tables has no freed one. -/
theorem PortSound.not_freed (alive : PortAlive port) :
    port.macToDst ≠ .freed ∧ port.knownMac ≠ .freed :=
  ⟨sound.macToDst_not_freed alive.1, sound.knownMac_not_freed alive.2⟩

/-- Only an attached port has a dead table. -/
theorem PortSound.attached_of_dead {flag : BitVec 32} (dead : port.isDead flag = true)
    : port.Attached := by
  by_contra bare
  rw [sound.bare bare] at dead
  simp [VtepPort.isDead, VtepPort.zero] at dead

end

end Ports

section Rules

/--
A property of numbered ports that survives what operations do to tables: live
tables are written to, and dead ones are made again.
-/
structure PortRule (holds : Nat → VtepPort version → Prop) : Prop where
  learnt : ∀ {i port table} after, holds i port → port.macToDst = .live table →
      holds i { port with macToDst := .live after }
  known : ∀ {i port table} after, holds i port → port.knownMac = .live table →
      holds i { port with knownMac := .live after }
  fixed : ∀ {i port} table, holds i port → port.isDead isMacToDstDead = true → holds i { port with
          macToDst := .live table
          deadTables := port.deadTables ^^^ isMacToDstDead }
  fixedKnown : ∀ {i port} table, holds i port → port.isDead isKnownMacDead = true → holds i
        { port with knownMac := .live table, deadTables := port.deadTables ^^^ isKnownMacDead }

/-- Two properties that survive, together. -/
theorem PortRule.and {first second : Nat → VtepPort version → Prop} (firstRule : PortRule first)
    (secondRule : PortRule second) : PortRule (fun i port => first i port ∧ second i port) where
  learnt := fun after both isLive =>
    ⟨firstRule.learnt after both.1 isLive, secondRule.learnt after both.2 isLive⟩
  known := fun after both isLive =>
    ⟨firstRule.known after both.1 isLive, secondRule.known after both.2 isLive⟩
  fixed := fun table both dead =>
    ⟨firstRule.fixed table both.1 dead, secondRule.fixed table both.2 dead⟩
  fixedKnown := fun table both dead =>
    ⟨firstRule.fixedKnown table both.1 dead, secondRule.fixedKnown table both.2 dead⟩

/-- Sound ports stay sound. -/
theorem portRule_sound : PortRule (fun _ (port : VtepPort version) => PortSound port) where
  learnt := by
    intro i port table after sound isLive
    refine ⟨fun attached => ?_, fun attached => sound.knownMac attached, fun bare => ?_⟩
    · obtain ⟨_, dead⟩ := sound.macToDst attached
      refine ⟨by simp, ⟨fun isDead => ?_, by simp⟩⟩
      have freed := dead.mp isDead
      rw [isLive] at freed
      exact absurd freed (by simp)
    · have isZero := sound.bare bare
      rw [isZero] at isLive
      exact absurd isLive (by simp [VtepPort.zero])
  known := by
    intro i port table after sound isLive
    refine ⟨fun attached => sound.macToDst attached, fun attached => ?_, fun bare => ?_⟩
    · obtain ⟨_, dead⟩ := sound.knownMac attached
      refine ⟨by simp, ⟨fun isDead => ?_, by simp⟩⟩
      have freed := dead.mp isDead
      rw [isLive] at freed
      exact absurd freed (by simp)
    · have isZero := sound.bare bare
      rw [isZero] at isLive
      exact absurd isLive (by simp [VtepPort.zero])
  fixed := by
    intro i port table sound dead
    have attached := sound.attached_of_dead dead
    rw [isDead_macToDst] at dead
    refine ⟨fun _ => ?_, fun _ => ?_, fun bare => absurd attached bare⟩
    · rw [isDead_macToDst]
      simp only [getLsbD_xor_isMacToDstDead, dead]
      exact ⟨by simp, by simp⟩
    · rw [isDead_knownMac]
      have knownSound := sound.knownMac attached
      rw [isDead_knownMac] at knownSound
      simp only [getLsbD_xor_isMacToDstDead]
      exact knownSound
  fixedKnown := by
    intro i port table sound dead
    have attached := sound.attached_of_dead dead
    rw [isDead_knownMac] at dead
    refine ⟨fun _ => ?_, fun _ => ?_, fun bare => absurd attached bare⟩
    · rw [isDead_macToDst]
      have macsSound := sound.macToDst attached
      rw [isDead_macToDst] at macsSound
      simp only [getLsbD_xor_isKnownMacDead]
      exact macsSound
    · rw [isDead_knownMac]
      simp only [getLsbD_xor_isKnownMacDead, dead]
      exact ⟨by simp, by simp⟩

/-- Ports whose tables are not flagged as dead are not fixed. -/
theorem portRule_alive (which : Nat → Prop) :
    PortRule (fun i (port : VtepPort version) => which i → PortAlive port) where
  learnt := fun _ alive _ isOne => alive isOne
  known := fun _ alive _ isOne => alive isOne
  fixed := by
    intro i port table alive dead isOne
    rw [(alive isOne).1] at dead
    exact absurd dead (by simp)
  fixedKnown := by
    intro i port table alive dead isOne
    rw [(alive isOne).2] at dead
    exact absurd dead (by simp)

/-- Open ports stay open. -/
theorem portRule_open (which : Nat → Prop) :
    PortRule (fun i (port : VtepPort version) => which i → PortOpen port) where
  learnt := fun after isOpen _ isOne => { isOpen isOne with macToDst := ⟨after, rfl⟩ }
  known := fun after isOpen _ isOne => { isOpen isOne with knownMac := ⟨after, rfl⟩ }
  fixed := by
    intro i port table isOpen dead isOne
    rw [(isOpen isOne).alive.1] at dead
    exact absurd dead (by simp)
  fixedKnown := by
    intro i port table isOpen dead isOne
    rw [(isOpen isOne).alive.2] at dead
    exact absurd dead (by simp)

end Rules

section Runs

/-- The world with another value of a port. -/
def VtepWorld.withPort (world : VtepWorld ι version) (i : Nat) (port : VtepPort version) :
    VtepWorld ι version :=
  { world with state := { world.state with ports := update world.state.ports i port } }

/-- The world after some allocations, with another table of a port. -/
def VtepWorld.withTable (world : VtepWorld ι version) (malloc : Malloc)
    (which : PortTable version V) (i : Nat) (slot : TableSlot V) : VtepWorld ι version :=
  { world with malloc := malloc }.withPort i (which.put (world.state.ports i) slot)

/-- The table that a slot reads as. -/
def TableSlot.reads : TableSlot V → Option (MacTable V)
  | .absent => some (MacTable.zero V)
  | .live table => some table
  | .freed => none

/-- A sub-table in which one entry was refreshed. -/
def SubTable.refreshed (inner : SubTable (DestAddresses version)) (tick : BitVec 64) (part2 : Nat)
    : SubTable (DestAddresses version) :=
  { inner with
    entries :=
      inner.entries.map (fun entries => update entries part2 ((entries part2).map
              (fun entry => { entry with lifetime := tick }))) }

/-- A table in which the entry of a MAC was refreshed. -/
def MacTable.refreshed (table : MacTable (DestAddresses version)) (tick : BitVec 64) (mac : Mac) :
    MacTable (DestAddresses version) :=
  { table with
    subs :=
      update table.subs (pgMacTablePart1 mac) ((table.subs (pgMacTablePart1 mac)).map
          (fun inner => inner.refreshed tick (pgMacTablePart2 mac))) }

variable (world : VtepWorld ι version) (i : Nat)

@[simp] theorem ports_withPort_self (port : VtepPort version) :
    (world.withPort i port).state.ports i = port :=
  update_self ..

@[simp] theorem withPort_withPort (first port : VtepPort version) :
    (world.withPort i first).withPort i port = world.withPort i port := by
  unfold VtepWorld.withPort
  simp only [update_idem]

/-- A port with one of its flags flipped. -/
def VtepPort.flipped (port : VtepPort version) (flag : BitVec 32) : VtepPort version :=
  { port with deadTables := port.deadTables ^^^ flag }

variable (which : PortTable version V)

/-- What looking at a table answers. -/
theorem readTable_run (i : Nat) (world : VtepWorld ι version) :
    readTable which i world = match which.slot (world.state.ports i) with
      | .absent => .ok (MacTable.zero V) world
      | .live table => .ok table world
      | .freed => .error .freedTable world := by
  show (match which.slot (world.state.ports i) with
    | .absent => pure (MacTable.zero V)
    | .live table => pure table
    | .freed => throw .freedTable : VtepM ι version _) world = _
  cases which.slot (world.state.ports i) <;> rfl

/-- Stamping an entry refreshes it in the table that the port reads as. -/
theorem touchEntry_run (mac : Mac) :
    touchEntry i mac world = match (world.state.ports i).macToDst.reads with
      | none => .error .freedTable world
      | some table =>
        .ok () (world.withPort i { world.state.ports i with
              macToDst :=
                .live (table.refreshed world.state.vtepTick mac) }) := by
  have reads := readTable_run macToDst i world
  have isMacToDst : macToDst.slot (world.state.ports i) = (world.state.ports i).macToDst := rfl
  rw [isMacToDst] at reads
  unfold touchEntry
  cases isSlot : (world.state.ports i).macToDst with
  | freed =>
    rw [isSlot] at reads
    rw [bind_of_error reads]
    rfl
  | absent | live table =>
    rw [isSlot] at reads
    rw [bind_of_ok reads]
    rfl

/-- What setting an entry leaves. -/
theorem setInTable_run (i : Nat) (mac : Mac) (entry : V) (world : VtepWorld ι version) :
    setInTable which i mac entry world = match which.slot (world.state.ports i) with
      | .absent => .error (.aborted .fault) world
      | .freed => .error .freedTable world
      | .live table =>
        match macTableSet world.malloc table mac entry with
        | (.stored after, malloc) => .ok () (world.withTable malloc which i (.live after))
        | (.raised after, malloc) => .error .raised (world.withTable malloc which i (.live after))
        | (.fault, malloc) =>
          .error (.aborted .fault) { world with malloc := malloc } := by
  unfold setInTable
  simp only [bind, EStateM.bind, get, getThe, MonadStateOf.get, EStateM.get]
  cases which.slot (world.state.ports i) with
  | absent | freed => rfl
  | live table =>
    simp only
    rcases macTableSet world.malloc table mac entry with ⟨outcome, malloc⟩
    cases outcome <;> rfl

/-- What freeing a table leaves. -/
theorem freeTable_run (i : Nat) (world : VtepWorld ι version) :
    freeTable which i world = match which.slot (world.state.ports i) with
      | .absent => .ok () world
      | .freed => .error .freedTable world
      | .live table =>
        match pgMacTableClear table with
        | .error reason => .error (.aborted reason) world
        | .ok _ => .ok () (world.withTable world.malloc which i .freed) := by
  unfold freeTable
  simp only [bind, EStateM.bind, get, getThe, MonadStateOf.get, EStateM.get]
  cases which.slot (world.state.ports i) with
  | absent | freed => rfl
  | live table =>
    simp only
    cases pgMacTableClear table <;> rfl

/-- What making a table leaves. -/
theorem initTable_run (i : Nat) (world : VtepWorld ι version) :
    initTable which i world = match pgMacTableInit V world.malloc with
      | (none, malloc) =>
        .ok (-1) (world.withTable malloc which i (which.slot (world.state.ports i)).lost)
      | (some table, malloc) =>
        .ok 0 (world.withTable malloc which i (.live table)) := by
  unfold initTable
  simp only [bind, EStateM.bind, get, getThe, MonadStateOf.get, EStateM.get]
  rcases pgMacTableInit V world.malloc with ⟨made, malloc⟩
  cases made <;> rfl

/-- What making a dead table again leaves. -/
theorem fixTable_run (flag : BitVec 32) (i : Nat) (world : VtepWorld ι version) :
    fixTable which flag i world = if (world.state.ports i).isDead flag then
        match pgMacTableInit V world.malloc with
        | (none, malloc) =>
          .ok (-1) { world.withTable malloc which i (which.slot (world.state.ports i)).lost with
              errp := some (noMemory "out of memory") }
        | (some table, malloc) =>
          .ok 0 ({ world with malloc := malloc }.withPort i
              ((which.put (world.state.ports i) (.live table)).flipped flag))
      else
        .ok 0 world := by
  unfold fixTable
  simp only [bind, EStateM.bind, get, getThe, MonadStateOf.get, EStateM.get]
  by_cases dead : (world.state.ports i).isDead flag = true
  · simp only [dead, ↓reduceIte, EStateM.bind, initTable_run]
    rcases pgMacTableInit V world.malloc with ⟨made, malloc⟩
    cases made with
    | none => rfl
    | some table =>
      show EStateM.Result.ok (0 : Int) ((world.withTable malloc which i (.live table)).withPort i
            (((world.withTable malloc which i (.live table)).state.ports i).flipped flag)) = _
      simp only [VtepWorld.withTable, ports_withPort_self, withPort_withPort]
  · simp only [dead, Bool.false_eq_true, ↓reduceIte]
    rfl

variable {malloc : Malloc}

/-- Setting an entry raises only after an allocation that failed. -/
theorem macTableSet_of_allocs (succeed : ∀ call, malloc call = true) (table : MacTable V)
    (mac : Mac) (entry : V) :
    (∀ after, (macTableSet malloc table mac entry).1 ≠ .raised after) ∧
      ∀ call, (macTableSet malloc table mac entry).2 call = true := by
  have stores : ∀ (table : MacTable V) (part1 part2 : Nat) (after : MacTable V),
        storeEntry table part1 part2 entry ≠ .raised after := by
    intro table part1 part2 after
    unfold storeEntry
    split
    · simp
    · split <;> simp
  unfold macTableSet
  dsimp only
  split
  · exact ⟨fun after => stores _ _ _ after, succeed⟩
  · rw [if_pos (succeed 0), if_pos (succeed 1)]
    exact ⟨fun after => stores _ _ _ after, fun call => succeed (2 + call)⟩

theorem pgMacTableInit_of_allocs (succeed : ∀ call, malloc call = true) :
    ∃ table, pgMacTableInit V malloc = (some table, malloc.after 1) := by
  unfold pgMacTableInit
  rw [if_pos (succeed 0)]
  exact ⟨_, rfl⟩

end Runs

section Steps

/--
All ports have a property, the flags are as given, and no allocation is going
to fail if that is assumed.
-/
structure Steady (holds : Nat → VtepPort version → Prop) (succeed : Bool) (flags : BitVec 32)
    (world : VtepWorld ι version) : Prop where
  ports : ∀ i, holds i (world.state.ports i)
  allocs : succeed = true → ∀ call, world.malloc call = true
  flags : world.state.flags = flags

/-- How a step may stop: a failed allocation leaves the world steady. -/
def SafeStop (holds : Nat → VtepPort version → Prop) (succeed : Bool) (flags : BitVec 32)
    (reason : VtepStop) (world : VtepWorld ι version) : Prop :=
  match reason with
  | .raised => succeed = false ∧ Steady holds succeed flags world
  | .freedTable => False
  | .aborted _ => True

/-- An operation stops only by ending the program on purpose or by a fault. -/
def AbortStop (reason : VtepStop) (_ : VtepWorld ι version) : Prop :=
  ∃ abort, reason = .aborted abort

variable {holds : Nat → VtepPort version → Prop} {succeed : Bool} {flags : BitVec 32} {i : Nat}

/-- What ports show does not depend on packets and clones. -/
theorem steady_cloneBlind :
    CloneBlind (Steady holds succeed flags : VtepWorld ι version → Prop) := by
  intro world after same steady
  have samePorts := congrArg (fun vital => vital.state.ports) same
  have sameMalloc := congrArg VtepWorld.malloc same
  have sameFlags := congrArg (fun vital => vital.state.flags) same
  change after.state.ports = world.state.ports at samePorts
  change after.malloc = world.malloc at sameMalloc
  change after.state.flags = world.state.flags at sameFlags
  constructor
  · rw [samePorts]
    exact steady.ports
  · rw [sameMalloc]
    exact steady.allocs
  · rw [sameFlags]
    exact steady.flags

theorem steady_packetBlind :
    PacketBlind (Steady holds succeed flags : VtepWorld ι version → Prop) :=
  steady_cloneBlind.packetBlind

variable {weaker : Nat → VtepPort version → Prop} {world : VtepWorld ι version}

theorem Steady.weaken (steady : Steady holds succeed flags world)
    (implies : ∀ i port, holds i port → weaker i port) : Steady weaker succeed flags world :=
  ⟨fun i => implies i _ (steady.ports i), steady.allocs, steady.flags⟩

theorem SafeStop.weaken {reason : VtepStop} (safe : SafeStop holds succeed flags reason world)
    (implies : ∀ i port, holds i port → weaker i port) :
    SafeStop weaker succeed flags reason world := by
  cases reason with
  | raised => exact ⟨safe.1, safe.2.weaken implies⟩
  | freedTable => exact safe
  | aborted abort => exact trivial

/-- A port is replaced by one with the property. -/
theorem Steady.withPort (steady : Steady holds succeed flags world) {port : VtepPort version}
    (holdsThere : holds i port) : Steady holds succeed flags (world.withPort i port) := by
  refine ⟨fun k => ?_, steady.allocs, steady.flags⟩
  show holds k (update world.state.ports i port k)
  by_cases here : k = i
  · subst here
    rw [update_self]
    exact holdsThere
  · rw [update_of_ne here]
    exact steady.ports k

theorem Steady.withMalloc (steady : Steady holds succeed flags world)
    {malloc : Malloc} (allocs : succeed = true → ∀ call, malloc call = true) :
    Steady holds succeed flags { world with malloc := malloc } :=
  ⟨steady.ports, allocs, steady.flags⟩

variable {stop : VtepStop → VtepWorld ι version → Prop} {which : PortTable version V}

/-- A table that was not freed can be looked at. -/
theorem readTable_steps (notFreed : ∀ port, holds i port → which.slot port ≠ .freed) :
    Keeps (Steady holds succeed flags) stop (readTable which i : VtepM ι version _) := by
  intro world steady
  rw [readTable_run]
  have there := notFreed _ (steady.ports i)
  cases isSlot : which.slot (world.state.ports i) with
  | absent | live table => exact steady
  | freed => exact absurd isSlot there

/-- Writing to a table that was not freed. -/
theorem setInTable_steps (notFreed : ∀ port, holds i port → which.slot port ≠ .freed)
    (relive : ∀ port table after, holds i port → which.slot port = .live table → holds i (which.put
        port (.live after))) (mac : Mac) (entry : V) :
    Keeps (Steady holds succeed flags) (SafeStop holds succeed flags)
      (setInTable which i mac entry : VtepM ι version Unit) := by
  intro world steady
  rw [setInTable_run]
  have there := notFreed _ (steady.ports i)
  cases isSlot : which.slot (world.state.ports i) with
  | absent => exact trivial
  | freed => exact absurd isSlot there
  | live table =>
    simp only
    have allocs : succeed = true → (∀ after,
            (macTableSet world.malloc table mac entry).1 ≠ .raised after) ∧
          ∀ call, (macTableSet world.malloc table mac entry).2 call = true :=
      fun ok => macTableSet_of_allocs (steady.allocs ok) table mac entry
    rcases isSet : macTableSet world.malloc table mac entry with
      ⟨outcome, malloc⟩
    rw [isSet] at allocs
    have written : ∀ after, Steady holds succeed flags
            (world.withTable malloc which i (.live after)) :=
      fun after => (steady.withMalloc (fun ok => (allocs ok).2)).withPort
          (relive _ table after (steady.ports i) isSlot)
    cases outcome with
    | stored after => exact written after
    | raised after =>
      refine ⟨?_, written after⟩
      by_contra ok
      exact (allocs (by simpa using ok)).1 after rfl
    | fault => exact trivial

/-- Making a dead table again clears its flag or fails. -/
theorem fixTable_steps {flag : BitVec 32}
    (freed :
      ∀ port, holds i port → port.isDead flag = true → which.put port (which.slot port).lost = port)
    (refix : ∀ port table, holds i port → port.isDead flag = true → holds i ((which.put port (.live
        table)).flipped flag))
    (cleared : ∀ port table, port.isDead flag = true → ((which.put port (.live table)).flipped
        flag).isDead flag = false) :
    Spec (Steady holds succeed flags) (fixTable which flag i : VtepM ι version Int)
      (fun ret world =>
        Steady holds succeed flags world ∧ (0 ≤ ret → (world.state.ports i).isDead flag = false))
      stop := by
  intro world steady
  rw [fixTable_run]
  by_cases dead : (world.state.ports i).isDead flag = true
  · rw [if_pos dead]
    have there := steady.ports i
    have allocs : succeed = true → ∀ call, (pgMacTableInit V world.malloc).2 call = true := by
      intro ok
      rw [(pgMacTableInit_of_allocs (steady.allocs ok)).choose_spec]
      exact fun call => steady.allocs ok (1 + call)
    rcases isMade : pgMacTableInit V world.malloc with ⟨made, malloc⟩
    rw [isMade] at allocs
    have spent := steady.withMalloc allocs
    cases made with
    | none =>
      refine ⟨?_, fun returned => absurd returned (by decide)⟩
      have same := spent.withPort there
      rw [← freed _ there dead] at same
      exact ⟨same.ports, same.allocs, same.flags⟩
    | some table =>
      refine ⟨spent.withPort (refix _ table there dead), fun _ => ?_⟩
      rw [ports_withPort_self]
      exact cleared _ table dead
  · rw [if_neg dead]
    exact ⟨steady, fun _ => by simpa using dead⟩

section

variable (rule : PortRule holds) (sound : ∀ i port, holds i port → PortSound port) (i : Nat)

include rule sound

/-- `mac_to_dst` is not dead once it was fixed. -/
theorem fixMacToDst_steps :
    Spec (Steady holds succeed flags) (fixTable macToDst isMacToDstDead i : VtepM ι version Int)
      (fun ret world => Steady holds succeed flags world ∧
          (0 ≤ ret → (world.state.ports i).isDead isMacToDstDead = false))
      stop := by
  refine fixTable_steps ?_ ?_ ?_
  · intro port holdsThere dead
    have attached := (sound i port holdsThere).attached_of_dead dead
    have freed := ((sound i port holdsThere).macToDst attached).2.mp dead
    show { port with macToDst := port.macToDst.lost } = port
    rw [freed]
    show { port with macToDst := .freed } = port
    rw [← freed]
  · intro port table holdsThere dead
    have fixed := rule.fixed table holdsThere dead
    exact fixed
  · intro port table dead
    rw [isDead_macToDst] at dead ⊢
    show (port.deadTables ^^^ isMacToDstDead).getLsbD 0 = false
    rw [(getLsbD_xor_isMacToDstDead _).1, dead]
    rfl

/-- `known_mac` is not dead once it was fixed. -/
theorem fixKnownMac_steps :
    Spec (Steady holds succeed flags) (fixTable knownMac isKnownMacDead i : VtepM ι version Int)
      (fun ret world => Steady holds succeed flags world ∧
          (0 ≤ ret → (world.state.ports i).isDead isKnownMacDead = false))
      stop := by
  refine fixTable_steps ?_ ?_ ?_
  · intro port holdsThere dead
    have attached := (sound i port holdsThere).attached_of_dead dead
    have freed := ((sound i port holdsThere).knownMac attached).2.mp dead
    show { port with knownMac := port.knownMac.lost } = port
    rw [freed]
    show { port with knownMac := .freed } = port
    rw [← freed]
  · intro port table holdsThere dead
    have fixed := rule.fixedKnown table holdsThere dead
    exact fixed
  · intro port table dead
    rw [isDead_knownMac] at dead ⊢
    show (port.deadTables ^^^ isKnownMacDead).getLsbD 1 = false
    rw [(getLsbD_xor_isKnownMacDead _).2, dead]
    rfl

end

/-- A cleared flag of `mac_to_dst` stays so while the other table is fixed. -/
theorem portRule_cleared (which : Nat → Prop) :
    PortRule (fun i (port : VtepPort version) => which i → port.isDead isMacToDstDead = false) where
  learnt := fun _ cleared _ isOne => cleared isOne
  known := fun _ cleared _ isOne => cleared isOne
  fixed := by
    intro i port table cleared dead isOne
    rw [cleared isOne] at dead
    exact absurd dead (by simp)
  fixedKnown := by
    intro i port table cleared dead isOne
    have before := cleared isOne
    rw [isDead_macToDst] at before ⊢
    show (port.deadTables ^^^ isKnownMacDead).getLsbD 0 = false
    rw [(getLsbD_xor_isKnownMacDead _).1]
    exact before

theorem portRule_knownCleared (which : Nat → Prop) :
    PortRule (fun i (port : VtepPort version) => which i → port.isDead isKnownMacDead = false) where
  learnt := fun _ cleared _ isOne => cleared isOne
  known := fun _ cleared _ isOne => cleared isOne
  fixed := by
    intro i port table cleared dead isOne
    have before := cleared isOne
    rw [isDead_knownMac] at before ⊢
    show (port.deadTables ^^^ isMacToDstDead).getLsbD 1 = false
    rw [(getLsbD_xor_isMacToDstDead _).2]
    exact before
  fixedKnown := by
    intro i port table cleared dead isOne
    rw [cleared isOne] at dead
    exact absurd dead (by simp)

/-- Narrow a steady world to what is known of one port. -/
theorem Steady.narrow {one : VtepPort version → Prop}
    (steady : Steady holds succeed flags world) (there : one (world.state.ports i)) :
    Steady (fun k port => holds k port ∧ (k = i → one port)) succeed flags
      world :=
  ⟨fun k => ⟨steady.ports k, fun same => same ▸ there⟩, steady.allocs, steady.flags⟩

/-- After fixing a port without failure, none of its tables is dead. -/
theorem fixIfDead_steps (rule : PortRule holds) (sound : ∀ i port, holds i port → PortSound port)
    (i : Nat) :
    Spec (Steady holds succeed flags) (fixIfDead i : VtepM ι version Int) (fun ret world =>
        Steady holds succeed flags world ∧ (0 ≤ ret → PortAlive (world.state.ports i)))
      stop := by
  refine .read (fun seen steady => ?_)
  split
  · refine .bind ((fixMacToDst_steps rule sound i).startingAt steady) (fun ret => ?_)
    split
    · exact .pure (fun world post => ⟨post.1, fun returned => absurd returned (by decide)⟩)
    · rename_i notFailed
      have second : Spec (Steady (fun k port =>
                holds k port ∧ (k = i → port.isDead isMacToDstDead = false))
              succeed flags)
            (fixTable knownMac isKnownMacDead i : VtepM ι version Int) _
            stop :=
        fixKnownMac_steps (rule.and (portRule_cleared (· = i)))
          (fun k port both => sound k port both.1) i
      refine second.weaken ?_ ?_ (fun _ _ stopped => stopped)
      · intro world post
        exact post.1.narrow (post.2 (by omega))
      · intro ret world post
        refine ⟨post.1.weaken (fun _ _ both => both.1), fun returned => ?_⟩
        exact ⟨(post.1.ports i).2 rfl, post.2 returned⟩
  · rename_i notDead
    refine .pure (fun world same => ?_)
    subst same
    refine ⟨steady, fun _ => ?_⟩
    rw [areMacTablesDead_eq] at notDead
    simpa [PortAlive] using notDead

end Steps

end PacketGraph
