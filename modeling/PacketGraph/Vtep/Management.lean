import PacketGraph.Vtep.Liveness

namespace PacketGraph

open BitScan Effects Function

/-!
# Management operations keep the tables of ports sound

Attaching a VNI makes both tables of a port and taking it back frees them.
The other operations write to a table in use, provided that it is not flagged
as dead: none of them looks at the flags.
-/

variable {ι V : Type} {version : IpVersion}

section Vni

variable {holds : Nat → VtepPort version → Prop} {succeed : Bool} {flags : BitVec 32}
  {world : VtepWorld ι version}

/-- A failed allocation cannot stop a step when none is going to fail. -/
theorem SafeStop.abort {reason : VtepStop}
    (safe : SafeStop holds true flags reason world) : AbortStop reason world := by
  cases reason with
  | raised => exact absurd safe.1 (by simp)
  | freedTable => exact absurd safe id
  | aborted abort => exact ⟨abort, rfl⟩

theorem failWith_steps (message : String) :
    Spec (Steady holds succeed flags) (failWith message : VtepM ι version Int)
      (fun ret world => Steady holds succeed flags world ∧ ret < 0)
      AbortStop := by
  refine .bind (setError_keeps steady_packetBlind _) (fun _ => ?_)
  exact .pure (fun _ steady => ⟨steady, by decide⟩)

theorem multicastInternal_steps (brick : Brick ι) (multicastIp : Ip version) (action : Operation) :
    Keeps (Steady holds succeed flags) AbortStop
      (multicastInternal brick multicastIp action : VtepM ι version Unit) := by
  refine .read (fun world _ => ?_)
  split
  · exact setError_keeps steady_packetBlind _
  · refine .bind (Keeps.modify (fun before steady => ?_)) (fun _ => ?_)
    · exact ⟨steady.ports, steady.allocs, steady.flags⟩
    · split
      · exact setError_keeps steady_packetBlind _
      · dsimp only
        split
        · unfold noTailroom
          split
          · exact setError_keeps steady_packetBlind _
          · exact .throw (fun _ _ => ⟨_, rfl⟩)
        · exact .bind (forwardEdges_keeps (fun _ => burstTo_steps _) _) (fun _ => Keeps.pure _)

/-- The tables of a new VNI are made when no allocation fails. -/
theorem assertTable_run (which : PortTable version V) (i : Nat)
    (allocs : ∀ call, world.malloc call = true) :
    ∃ table, assertTable which i world = .ok () (world.withTable (world.malloc.after 1) which i
          (.live table)) := by
  obtain ⟨table, made⟩ := pgMacTableInit_of_allocs (V := V) allocs
  refine ⟨table, ?_⟩
  show EStateM.bind (initTable which i) _ world = _
  unfold EStateM.bind
  rw [initTable_run, made]
  rfl

/-- A port right after a VNI was attached to it. -/
def VtepPort.fresh (vni : BitVec 32) (multicastIp : Ip version)
    (macs : MacTable (DestAddresses version)) (known : MacTable Unit) : VtepPort version where
  vni := vniField vni
  multicastIp := multicastIp
  macToDst := .live macs
  knownMac := .live known
  deadTables := 0#32

variable {multicastIp : Ip version}

theorem portOpen_fresh (multicast : pgIsMulticastIp multicastIp = true) (vni : BitVec 32)
    (macs : MacTable (DestAddresses version)) (known : MacTable Unit) :
    PortOpen (VtepPort.fresh vni multicastIp macs known) where
  attached := multicast
  macToDst := ⟨macs, rfl⟩
  knownMac := ⟨known, rfl⟩
  alive := ⟨by simp [VtepPort.isDead, VtepPort.fresh], by simp [VtepPort.isDead, VtepPort.fresh]⟩

variable {i : Nat}

/-- Making the tables of a port that had none. -/
theorem fillPort_run (allocs : ∀ call, world.malloc call = true)
    (bare : world.state.ports i = VtepPort.zero version) (vni : BitVec 32)
    (multicastIp : Ip version) :
    ∃ macs known, fillPort i vni multicastIp world = .ok ()
          ({ world with malloc := (world.malloc.after 1).after 1 }.withPort i
            (VtepPort.fresh vni multicastIp macs known)) := by
  let named :=
    world.withPort i { world.state.ports i with vni := vniField vni, multicastIp := multicastIp }
  obtain ⟨macs, madeMacs⟩ :=
    assertTable_run macToDst i (show ∀ call, named.malloc call = true from allocs)
  let filled := named.withTable (named.malloc.after 1) macToDst i (.live macs)
  obtain ⟨known, madeKnown⟩ :=
    assertTable_run knownMac i (show ∀ call, filled.malloc call = true from
        fun call => allocs (1 + call))
  refine ⟨macs, known, ?_⟩
  show EStateM.bind (assertTable macToDst i) (fun _ => assertTable knownMac i) named = _
  unfold EStateM.bind
  rw [madeMacs]
  show assertTable knownMac i filled = _
  rw [madeKnown]
  refine congrArg (EStateM.Result.ok ()) ?_
  simp only [filled, named, VtepWorld.withTable, VtepWorld.withPort, update_idem, update_self, bare]
  rfl

/-- `do_add_vni` leaves the port it attaches a VNI to open. -/
theorem doAddVni_steps (sound : ∀ k port, holds k port → PortSound port) {vni : BitVec 32}
    (multicast : pgIsMulticastIp multicastIp = true)
    (attached : ∀ macs known, holds i (VtepPort.fresh vni multicastIp macs known))
    (brick : Brick ι) :
    Spec (Steady holds true flags) (doAddVni brick i vni multicastIp : VtepM ι version Int)
      (fun ret world => Steady holds true flags world ∧ (0 ≤ ret → PortOpen (world.state.ports i)))
      AbortStop := by
  refine .read (fun seen steady => ?_)
  have fails (message : String) :=
    ((failWith_steps message).ending
      (fun ret world (post : Steady holds true flags world ∧ ret < 0) =>
        (⟨post.1, fun returned => absurd returned (not_le.mpr post.2)⟩ :
          Steady holds true flags world ∧
            (0 ≤ ret → PortOpen (world.state.ports i))))).startingAt steady
  dsimp only
  split
  · exact fails _
  split
  · exact fails _
  rename_i notAttached
  have bare := (sound i _ (steady.ports i)).bare notAttached
  have allocs := steady.allocs rfl
  obtain ⟨macs, known, made⟩ := fillPort_run allocs bare vni multicastIp
  have filled : Spec (fun world => world = seen) (fillPort i vni multicastIp : VtepM ι version Unit)
        (fun _ => Steady (WithOpen holds i) true flags) AbortStop := by
    rintro world rfl
    rw [made]
    have spent : Steady holds true flags { world with malloc := (world.malloc.after 1).after 1 } :=
      steady.withMalloc (fun _ call => allocs (1 + (1 + call)))
    refine (spent.withPort (attached macs known)).narrow ?_
    rw [ports_withPort_self]
    exact portOpen_fresh multicast vni macs known
  refine .bind filled (fun _ => ?_)
  refine .bind (multicastInternal_steps brick multicastIp .subscribe) (fun _ => ?_)
  exact .pure (fun _ post => ⟨post.weaken (fun _ _ both => both.1), fun _ => (post.ports i).2 rfl⟩)

/-- `do_add_mac` on a table that was not freed. -/
theorem doAddMac_steps (rule : PortRule holds)
    (notFreed : ∀ port, holds i port → port.knownMac ≠ .freed) (mac : BitVec 48) :
    Keeps (Steady holds true flags) AbortStop (doAddMac i mac : VtepM ι version Unit) :=
  (setInTable_steps notFreed
    (fun _ _ after there isLive => rule.known after there isLive) _ _).weaken
    (fun _ steady => steady) (fun _ _ post => post) (fun _ _ stopped => stopped.abort)

/-- `pg_vtep_add_vni`, when no allocation fails. -/
theorem pgVtepAddVni_steps [DecidableEq ι] (rule : PortRule holds)
    (sound : ∀ k port, holds k port → PortSound port) {brick : Brick ι} {output : Side}
    {neighbor : Option ι} {vni : BitVec 32}
    (attached : ∀ i next macs known, isVniValid vni = true → pgIsMulticastIp multicastIp = true →
        edgeTo (brick.sides (pgFlipSide output)) next = some i → holds i (VtepPort.fresh vni
        multicastIp macs known)) :
    Spec (fun world => Steady holds true flags world ∧ world.state.output = output)
      (pgVtepAddVni brick neighbor vni multicastIp : VtepM ι version Int)
      (fun _ => Steady holds true flags) AbortStop := by
  refine .of_start (fun seen pre => ?_)
  obtain ⟨steady, sameOutput⟩ := pre
  have fails (message : String) :=
    ((failWith_steps message).ending
      (fun ret world (post : Steady holds true flags world ∧ ret < 0) => post.1)).startingAt steady
  cases neighbor with
  | none => exact fails _
  | some next =>
    refine .read (fun again same => ?_)
    subst same
    split
    · exact fails _
    rename_i validVni
    split
    · exact fails _
    rename_i multicast
    split
    · exact fails _
    rename_i i found
    rw [sameOutput] at found
    have isMulticast := not_not.mp multicast
    refine .bind ((doAddVni_steps sound isMulticast (fun macs known => attached i next macs known
          (not_not.mp validVni) isMulticast found) brick).startingAt steady) (fun ret => ?_)
    split
    · exact .pure (fun _ post => post.1)
    rename_i notFailed
    refine .bind (Spec.weaken (doAddMac_steps (rule.withOpen i)
        (fun _ both => (not_freed_of_withOpen both).2) broadcastMac)
      (fun world post => post.1.narrow (post.2 (by omega)))
      (fun _ _ post => post) (fun _ _ stopped => stopped)) (fun _ => ?_)
    exact .pure (fun _ post => post.weaken (fun _ _ both => both.1))

/-- `pg_vtep_add_mac`, when no allocation fails and the table is in use. -/
theorem pgVtepAddMac_steps (rule : PortRule holds) (sound : ∀ k port, holds k port → PortSound port)
    (brick : Brick ι) (vni : BitVec 32) (mac : BitVec 48) :
    Spec (fun world =>
        Steady holds true flags world ∧ ∀ i, portOfVni brick world.state vni = some i →
            (world.state.ports i).isDead isKnownMacDead = false)
      (pgVtepAddMac brick vni mac : VtepM ι version Int)
      (fun _ => Steady holds true flags) AbortStop := by
  refine .read (fun seen pre => ?_)
  obtain ⟨steady, inUse⟩ := pre
  split
  · exact ((failWith_steps _).ending (fun _ _ post => post.1)).startingAt steady
  rename_i i found
  -- no allocation fails, so the handler that frees the wrong table never runs
  have adds : Spec (Steady (fun k port =>
            holds k port ∧ (k = i → port.isDead isKnownMacDead = false))
          true flags)
        (do
          doAddMac i mac
          pure 0 : VtepM ι version Int)
        (fun _ => Steady holds true flags) AbortStop := by
    refine .bind (doAddMac_steps (rule.and (portRule_knownCleared (· = i)))
      (fun port both => ?_) mac) (fun _ => Spec.pure (fun _ post => ?_))
    · exact (sound i port both.1).knownMac_not_freed (both.2 rfl)
    · exact post.weaken (fun _ _ both => both.1)
  refine Spec.startingAt (Spec.tryCatch adds (fun reason => ?_)) (steady.narrow (inUse i found))
  refine .of_start (fun start stopped => ?_)
  obtain ⟨abort, rfl⟩ := stopped
  exact .throw (fun _ _ => ⟨abort, rfl⟩)

end Vni

section Cleaning

variable {holds : Nat → VtepPort version → Prop} {succeed : Bool} {flags : BitVec 32}

/-- Is `mac_to_dst` of the port that an id stands for free of its flag? -/
def CleanableAt (brick : Brick ι) (state : VtepState version) (portId : Int) : Prop :=
  let nbPorts := (brick.sides (pgFlipSide state.output)).nb
  portId < nbPorts → (state.ports (portId.tmod nbPorts).toNat).isDead isMacToDstDead = false

theorem portOfId_steps (brick : Brick ι) (portId : Int) :
    Spec (fun world => Steady holds succeed flags world ∧ CleanableAt brick world.state portId)
      (portOfId brick portId : VtepM ι version (Option Nat))
      (fun found world => Steady holds succeed flags world ∧ ∀ i, found = some i →
            (world.state.ports i).isDead isMacToDstDead = false)
      AbortStop := by
  refine .read (fun seen pre => ?_)
  obtain ⟨steady, inUse⟩ := pre
  dsimp only
  split
  · exact .throw (fun _ _ => ⟨_, rfl⟩)
  split
  · refine .pure (fun world same => ?_)
    subst same
    exact ⟨steady, fun i found => absurd found (by simp)⟩
  rename_i small
  split
  · exact .throw (fun _ _ => ⟨_, rfl⟩)
  · refine .pure (fun world same => ?_)
    subst same
    refine ⟨steady, fun i found => ?_⟩
    rw [← Option.some.inj found]
    exact inUse (not_le.mp small)

section

variable (rule : PortRule holds) (sound : ∀ k port, holds k port → PortSound port) (brick : Brick ι)
  (portId : Int)

include rule sound

/-- `pg_vtep_clean_all_mac` on a table in use. -/
theorem pgVtepCleanAllMac_steps :
    Spec (fun world => Steady holds succeed flags world ∧ CleanableAt brick world.state portId)
      (pgVtepCleanAllMac brick portId : VtepM ι version Unit)
      (fun _ => Steady holds succeed flags) AbortStop := by
  refine .bind (portOfId_steps brick portId) (fun found => ?_)
  cases found with
  | none => exact .pure (fun _ post => post.1)
  | some i =>
    refine .read (fun seen post => ?_)
    obtain ⟨steady, inUse⟩ := post
    have there := steady.ports i
    split
    · exact .pure (fun _ same => same ▸ steady)
    · rename_i isFreed
      exact absurd isFreed ((sound i _ there).macToDst_not_freed (inUse i rfl))
    · rename_i table isLive
      split
      · exact .throw (fun _ _ => ⟨_, rfl⟩)
      · rename_i cleared _
        refine .modify (fun world same => ?_)
        subst same
        exact steady.withPort (rule.learnt cleared there isLive)

/-- `pg_vtep_cleanup_mac` on a table in use. -/
theorem pgVtepCleanupMac_steps :
    Spec (fun world => Steady holds succeed flags world ∧ CleanableAt brick world.state portId)
      (pgVtepCleanupMac brick portId : VtepM ι version Unit)
      (fun _ => Steady holds succeed flags) AbortStop := by
  refine .bind (portOfId_steps brick portId) (fun found => ?_)
  cases found with
  | none => exact .pure (fun _ post => post.1)
  | some i =>
    refine .read (fun seen post => ?_)
    obtain ⟨steady, inUse⟩ := post
    have there := steady.ports i
    split
    · exact .pure (fun _ same => same ▸ steady)
    · rename_i isFreed
      exact absurd isFreed ((sound i _ there).macToDst_not_freed (inUse i rfl))
    · rename_i table isLive
      refine .modify (fun world same => ?_)
      subst same
      exact steady.withPort (rule.learnt _ there isLive)

end

end Cleaning

section Removal

variable {holds : Nat → VtepPort version → Prop} {succeed : Bool} {flags : BitVec 32}

/-- Free a table that is in use unless it is flagged as dead. -/
theorem freeUnlessDead_steps {before after : Nat → VtepPort version → Prop}
    {which : PortTable version V} {flag : BitVec 32} {i : Nat}
    (elsewhere : ∀ k port, k ≠ i → before k port → after k port)
    (dead : ∀ port, before i port → port.isDead flag = true → after i port)
    (alive : ∀ port, before i port → port.isDead flag = false → which.slot port ≠ .freed ∧ after i
        port ∧ after i (which.put port .freed)) :
    Spec (Steady before succeed flags) (freeUnlessDead which flag i : VtepM ι version Unit)
      (fun _ => Steady after succeed flags) AbortStop := by
  refine .read (fun seen steady => ?_)
  have there := steady.ports i
  have kept (holdsThere : after i (seen.state.ports i)) :
      Steady after succeed flags seen := by
    refine ⟨fun k => ?_, steady.allocs, steady.flags⟩
    by_cases here : k = i
    · subst here
      exact holdsThere
    · exact elsewhere k _ here (steady.ports k)
  split
  · rename_i isDead
    exact .pure (fun _ same => same ▸ kept (dead _ there isDead))
  · rename_i notDead
    obtain ⟨notFreed, same, freed⟩ := alive _ there (by simpa using notDead)
    rintro world rfl
    rw [freeTable_run]
    cases isSlot : which.slot (world.state.ports i) with
    | absent => exact kept same
    | freed => exact absurd isSlot notFreed
    | live table =>
      simp only
      cases pgMacTableClear table with
      | error reason => exact ⟨reason, rfl⟩
      | ok cleared => exact (kept same).withPort freed

/-- What is known of the ports while a VNI is taken from one of them. -/
def Leaving (holds : Nat → VtepPort version → Prop) (i k : Nat) (port : VtepPort version) : Prop :=
  (k ≠ i → holds k port) ∧ (k = i → port.isDead isMacToDstDead = false → port.macToDst ≠ .freed)

/-- `do_remove_vni` frees the tables in use and zeroes the port. -/
theorem doRemoveVni_steps (sound : ∀ k port, holds k port → PortSound port) {i : Nat}
    (zeroed : holds i (VtepPort.zero version)) (brick : Brick ι) :
    Spec (Steady holds succeed flags) (doRemoveVni brick i : VtepM ι version Unit)
      (fun _ => Steady holds succeed flags) AbortStop := by
  refine .read (fun seen steady => ?_)
  dsimp only
  split
  · exact .pure (fun _ same => same ▸ steady)
  refine .bind ((multicastInternal_steps brick _ _).startingAt steady) (fun _ => ?_)
  refine .read (fun noted still => ?_)
  split
  · exact .pure (fun _ same => same ▸ still)
  have freesKnown : Spec (Steady holds succeed flags)
        (freeUnlessDead knownMac isKnownMacDead i : VtepM ι version Unit)
        (fun _ => Steady (Leaving holds i) succeed flags) AbortStop := by
    have leaving : ∀ port, holds i port → Leaving holds i i port :=
      fun port there => ⟨fun other => absurd rfl other, fun _ alive =>
        (sound i port there).macToDst_not_freed alive⟩
    refine freeUnlessDead_steps ?_ ?_ ?_
    · exact fun k port other there => ⟨fun _ => there, fun same => absurd same other⟩
    · exact fun port there _ => leaving port there
    · intro port there alive
      refine ⟨(sound i port there).knownMac_not_freed alive,
        leaving port there, fun other => absurd rfl other, fun _ macsAlive => ?_⟩
      exact (sound i port there).macToDst_not_freed macsAlive
  have freesMacs : Spec (Steady (Leaving holds i) succeed flags)
        (freeUnlessDead macToDst isMacToDstDead i : VtepM ι version Unit)
        (fun _ => Steady (fun k port => k ≠ i → holds k port) succeed flags)
        AbortStop := by
    refine freeUnlessDead_steps ?_ ?_ ?_
    · exact fun k port other there _ => there.1 other
    · exact fun port _ _ other => absurd rfl other
    · exact fun port there alive =>
        ⟨there.2 rfl alive, fun other => absurd rfl other, fun other => absurd rfl other⟩
  refine .bind (freesKnown.startingAt still) (fun _ => ?_)
  refine .bind freesMacs (fun _ => ?_)
  refine .modify (fun world left => ?_)
  refine ⟨fun k => ?_, left.allocs, left.flags⟩
  show holds k (update world.state.ports i _ k)
  by_cases here : k = i
  · subst here
    rw [update_self]
    exact zeroed
  · rw [update_of_ne here]
    exact left.ports k here

/-- `vtep_unlink_notify`. -/
theorem vtepUnlinkNotify_steps (sound : ∀ k port, holds k port → PortSound port) {index : Nat}
    (zeroed : holds index (VtepPort.zero version)) (brick : Brick ι) (side : Side) :
    Spec (Steady holds succeed flags) (vtepUnlinkNotify brick side index : VtepM ι version Unit)
      (fun _ => Steady holds succeed flags) AbortStop := by
  refine .read (fun seen steady => ?_)
  split
  · exact .pure (fun _ same => same ▸ steady)
  · exact (doRemoveVni_steps sound zeroed brick).startingAt steady

end Removal

end PacketGraph
