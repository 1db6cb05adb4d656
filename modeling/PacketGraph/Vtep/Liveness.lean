import PacketGraph.Vtep.Tables
import PacketGraph.Vtep.Walks

namespace PacketGraph

open BitScan Effects Function List

/-!
# Bursts keep the tables of ports sound

Both directions of a burst fix the tables of a port before they use them.  A
failed allocation makes them drop tables; the ports are sound after that if
the tables that are dropped, and no others, are in use.
-/

variable {ι : Type} {version : IpVersion}

section Decapsulation

variable {holds : Nat → VtepPort version → Prop} {succeed : Bool} {flags : BitVec 32}

variable {stop : VtepStop → VtepWorld ι version → Prop}

/-- A call changes nothing that ports show. -/
theorem burstTo_steps (call : Option (Delivery ι)) :
    Keeps (Steady holds succeed flags) stop (burstTo call : VtepM ι version Int) :=
  burstTo_keeps (fun _ _ _ steady => ⟨steady.ports, steady.allocs, steady.flags⟩)

theorem steady_useBlind : UseBlind (Steady holds succeed flags : VtepWorld ι version → Prop) :=
  fun _ _ steady => ⟨steady.ports, steady.allocs, steady.flags⟩

/-- A property of ports, and one port has no dead table. -/
def WithAlive (holds : Nat → VtepPort version → Prop) (i : Nat) (k : Nat) (port : VtepPort version)
    : Prop :=
  holds k port ∧ (k = i → PortAlive port)

theorem PortRule.withAlive (rule : PortRule holds) (i : Nat) : PortRule (WithAlive holds i) :=
  rule.and (portRule_alive (· = i))

variable (rule : PortRule holds) (sound : ∀ i port, holds i port → PortSound port)

include sound

theorem not_freed_of_withAlive {i : Nat} {port : VtepPort version}
    (both : WithAlive holds i i port) : port.macToDst ≠ .freed ∧ port.knownMac ≠ .freed :=
  (sound i port both.1).not_freed (both.2 rfl)

theorem hittedMask_steps (i : Nat) (vniMask : BitVec 64) :
    Keeps (Steady (WithAlive holds i) succeed flags) stop
      (hittedMask i vniMask : VtepM ι version (BitVec 64)) := by
  refine Keeps.read (fun world _ => ?_)
  split
  · exact Keeps.pure _
  · refine Keeps.bind (readTable_steps ?_) (fun _ => Keeps.pure _)
    intro port both
    exact (not_freed_of_withAlive sound both).2

include rule

theorem addDstInerMacs_steps (array : PktArray) (eths hdrs : Nat → Nat) (i : Nat)
    (places : List Nat) :
    Keeps (Steady (WithAlive holds i) succeed flags) (SafeStop holds succeed flags)
      (addDstInerMacs array eths hdrs i places : VtepM ι version Unit) := by
  induction places with
  | nil => exact Keeps.pure _
  | cons j rest ih =>
    refine Keeps.read (fun world _ => ?_)
    refine Keeps.bind ?_ (fun _ => Keeps.bind (noteUse_keeps steady_useBlind _ _) (fun _ => ih))
    refine (setInTable_steps ?_ ?_ _ _).weaken (fun _ pre => pre) (fun _ _ post => post)
      (fun _ _ stopped => stopped.weaken (fun _ _ both => both.1))
    · intro port both
      exact (not_freed_of_withAlive sound both).1
    · intro port table after both isLive
      exact (rule.withAlive i).learnt after both isLive

/-- The ports after a burst from the output side, before it is caught. -/
theorem decapRule_steady (brick : Brick ι) (fromSide : Side) :
    DecapRule brick fromSide (Steady holds succeed flags : VtepWorld ι version → Prop)
      (fun i => Steady (WithAlive holds i) succeed flags)
      (SafeStop holds succeed flags) where
  blind := steady_packetBlind
  fixedBlind := fun _ => steady_cloneBlind
  bare := fun _ _ steady => steady.weaken (fun _ _ both => both.1)
  fixes := fun i => (fixIfDead_steps rule sound i).ending
      (fun _ _ post => ⟨post.1, fun good => post.1.narrow (post.2 good)⟩)
  hits := fun _ _ => hittedMask_steps sound _ _
  learns := fun _ _ _ _ _ => addDstInerMacs_steps rule sound _ _ _ _ _
  calls := fun _ _ _ => burstTo_steps _

end Decapsulation

section Encapsulation

variable {holds : Nat → VtepPort version → Prop} {succeed : Bool}
  {flags : BitVec 32} {stop : VtepStop → VtepWorld ι version → Prop}

/-- A property of ports, and one port is open. -/
def WithOpen (holds : Nat → VtepPort version → Prop) (i : Nat) (k : Nat) (port : VtepPort version)
    : Prop :=
  holds k port ∧ (k = i → PortOpen port)

theorem PortRule.withOpen (rule : PortRule holds) (i : Nat) : PortRule (WithOpen holds i) :=
  rule.and (portRule_open (· = i))

theorem not_freed_of_withOpen {i : Nat} {port : VtepPort version} (both : WithOpen holds i i port) :
    port.macToDst ≠ .freed ∧ port.knownMac ≠ .freed :=
  (both.2 rfl).sound.not_freed (both.2 rfl).alive

theorem destinationOf_steps (i j : Nat) :
    Keeps (Steady (WithOpen holds i) succeed flags) stop
      (destinationOf i j : VtepM ι version _) := by
  refine Keeps.read (fun world _ => ?_)
  split
  · exact Keeps.pure _
  · refine Keeps.bind (readTable_steps ?_) (fun _ => Keeps.pure _)
    intro port both
    exact (not_freed_of_withOpen both).1

variable (rule : PortRule holds)

include rule

theorem touchEntry_steps (i : Nat) (mac : Mac) :
    Keeps (Steady (WithOpen holds i) succeed flags) stop
      (touchEntry i mac : VtepM ι version Unit) := by
  refine Keeps.bind (readTable_steps ?_) (fun table => ?_)
  · intro port both
    exact (not_freed_of_withOpen both).1
  · refine Keeps.read (fun world _ => Keeps.modify (fun state steady => ?_))
    have both := steady.ports i
    obtain ⟨before, isLive⟩ := (both.2 rfl).macToDst
    exact steady.withPort ((rule.withOpen i).learnt _ both isLive)

/-- Learning a source stops only after an allocation that failed. -/
theorem learnSource_steps (i : Nat) (inner : Mbuf) :
    Keeps (Steady (WithOpen holds i) succeed flags) (SafeStop (WithOpen holds i) succeed flags)
      (learnSource i inner : VtepM ι version Unit) := by
  refine Keeps.read (fun world _ => ?_)
  split
  · exact Keeps.pure _
  · refine setInTable_steps ?_ ?_ _ _
    · intro port both
      exact (not_freed_of_withOpen both).2
    · intro port table after both isLive
      exact (rule.withOpen i).known after both isLive

omit rule in
/-- Without a check of inner MACs no source is learnt. -/
theorem learnSource_skips (unchecked : flags.getLsbD 1 = true) (i : Nat) (inner : Mbuf) :
    Keeps (Steady (WithOpen holds i) succeed flags) stop
      (learnSource i inner : VtepM ι version Unit) := by
  refine Keeps.read (fun world steady => ?_)
  have skipped : world.state.noInnermacCheck = true := by
    unfold VtepState.noInnermacCheck
    rw [steady.flags]
    exact unchecked
  rw [if_pos skipped]
  exact Keeps.pure _

variable {i : Nat} (learns : ∀ inner, Keeps (Steady (WithOpen holds i) succeed flags) stop
        (learnSource i inner : VtepM ι version Unit))

include learns

/-- The ports after a burst from a port, before it is caught. -/
theorem encapsulateBurst_steps (sound : ∀ k port, holds k port → PortSound port)
    (brick : Brick ι) (fromSide : Side) (pktsMask : BitVec 64) :
    Keeps (Steady holds succeed flags) stop
      (encapsulateBurst brick fromSide i pktsMask : VtepM ι version Int) := by
  have encapRule : EncapRule i (Steady (WithOpen holds i) succeed flags :
          VtepWorld ι version → Prop) stop :=
    { blind := steady_packetBlind
      cloneBlind := steady_cloneBlind
      finds := fun _ => destinationOf_steps _ _
      touches := fun _ => Keeps.bind (touchEntry_steps rule _ _)
          (fun _ => noteUse_keeps steady_useBlind _ _)
      learns := learns }
  refine encapRule.encapsulateBurst steady_cloneBlind
    (fun _ steady => steady.weaken (fun _ _ both => both.1)) ?_
    (fun _ => forwardEdges_keeps (fun _ => burstTo_steps _) _)
  refine (fixIfDead_steps rule sound i).ending
    (fun _ world post => ⟨post.1, fun good attached => ?_⟩)
  exact post.1.narrow ((sound i _ (post.1.ports i)).isOpen attached (post.2 good))

end Encapsulation

section Handlers

variable {V : Type} {holds : Nat → VtepPort version → Prop} {succeed : Bool} {flags : BitVec 32}

/-- Dropping a table that is in use. -/
theorem dropTable_run (which : PortTable version V)
    (flagBlind :
      ∀ port deadTables, which.slot { port with deadTables := deadTables } = which.slot port)
    (deadTables : BitVec 32) (i : Nat) (world : VtepWorld ι version) {table : MacTable V}
    (isLive : which.slot (world.state.ports i) = .live table) :
    dropTable which deadTables i world = match pgMacTableClear table with
      | .error reason =>
        .error (.aborted reason) (world.withPort i
            { world.state.ports i with deadTables := deadTables })
      | .ok _ =>
        .ok () (world.withPort i (which.put
              { world.state.ports i with deadTables := deadTables } .freed)) := by
  show freeTable which i (world.withPort i
        { world.state.ports i with deadTables := deadTables }) = _
  rw [freeTable_run, ports_withPort_self, flagBlind, isLive]
  simp only
  cases pgMacTableClear table with
  | error reason => rfl
  | ok cleared =>
    simp only [VtepWorld.withTable, ports_withPort_self]
    exact congrArg (EStateM.Result.ok ()) (withPort_withPort world i _ _)

variable {i : Nat} {after : Nat → VtepPort version → Prop}

/-- Dropping a table of an open port, which was in use. -/
theorem dropTable_steps {which : PortTable version V} {deadTables : BitVec 32} (flagBlind :
      ∀ port deadTables, which.slot { port with deadTables := deadTables } = which.slot port)
    (inUse : ∀ port, PortOpen port → ∃ table, which.slot port = .live table)
    (elsewhere : ∀ k port, k ≠ i → holds k port → after k port)
    (dropped :
      ∀ port, holds i port → PortOpen port → after i
          (which.put { port with deadTables := deadTables } .freed)) :
    Spec (Steady (WithOpen holds i) succeed flags)
      (dropTable which deadTables i : VtepM ι version Unit)
      (fun _ => Steady after succeed flags) AbortStop := by
  intro world steady
  obtain ⟨holdsThere, isOpen⟩ := steady.ports i
  obtain ⟨table, isLive⟩ := inUse _ (isOpen rfl)
  rw [dropTable_run which flagBlind deadTables i world isLive]
  cases pgMacTableClear table with
  | error reason => exact ⟨reason, rfl⟩
  | ok cleared =>
    refine ⟨fun k => ?_, steady.allocs, steady.flags⟩
    show after k (update world.state.ports i _ k)
    by_cases here : k = i
    · subst here
      rw [update_self]
      exact dropped _ holdsThere (isOpen rfl)
    · rw [update_of_ne here]
      exact elsewhere k _ here (steady.ports k).1

theorem toVtep_steps (rule : PortRule holds) (sound : ∀ k port, holds k port → PortSound port)
    (dropped :
      succeed = false →
      ∀ port, holds i port → PortOpen port → holds i { port with
            deadTables := isKnownMacDead ||| hasBeenBroken
            knownMac := .freed }) (brick : Brick ι) (fromSide : Side) (pktsMask : BitVec 64) :
    Keeps (Steady holds succeed flags) AbortStop
      (toVtep brick fromSide i pktsMask : VtepM ι version Int) := by
  refine Spec.read (fun seen steady => ?_)
  split
  · rename_i unchecked
    have skips : flags.getLsbD 1 = true := by
      rw [← steady.flags]
      exact unchecked
    exact (encapsulateBurst_steps rule (learnSource_skips skips i) sound
      brick fromSide pktsMask).startingAt steady
  · refine Spec.startingAt (Spec.tryCatch
        (encapsulateBurst_steps rule (learnSource_steps rule i) sound brick
          fromSide pktsMask) (fun reason => ?_)) steady
    cases reason with
    | raised =>
      refine Spec.of_start (fun start caught => ?_)
      refine Spec.bind ((dropTable_steps (fun _ _ => rfl)
          (fun _ isOpen => isOpen.knownMac) (fun _ _ _ there => there) (fun port there isOpen =>
            dropped caught.1 port there isOpen)).startingAt caught.2)
        (fun _ => ?_)
      refine Keeps.bind (freeOutPkts_keeps steady_cloneBlind _) (fun _ => ?_)
      exact Keeps.bind (setError_keeps steady_packetBlind _) (fun _ => Keeps.pure _)
    | freedTable => exact fun _ caught => absurd caught id
    | aborted abort => exact Spec.throw (fun _ _ => ⟨abort, rfl⟩)

variable {port : VtepPort version}

/-- An open port is sound after the handler of `to_vtep`. -/
theorem portSound_dropKnownMac (isOpen : PortOpen port) :
    PortSound { port with
        deadTables := isKnownMacDead ||| hasBeenBroken
        knownMac := .freed } := by
  obtain ⟨table, isLive⟩ := isOpen.macToDst
  refine ⟨fun _ => ?_, fun _ => ⟨by simp, ?_⟩, fun bare => absurd isOpen.attached bare⟩
  · rw [isLive, isDead_macToDst]
    exact ⟨by simp, by simp [isKnownMacDead, hasBeenBroken]⟩
  · rw [isDead_knownMac]
    simp [isKnownMacDead, hasBeenBroken]

/-- An open port is sound after the handler of `from_vtep`. -/
theorem portSound_dropMacToDst (isOpen : PortOpen port) :
    PortSound { port with
        deadTables := isMacToDstDead ||| hasBeenBroken
        macToDst := .freed } := by
  obtain ⟨table, isLive⟩ := isOpen.knownMac
  refine ⟨fun _ => ⟨by simp, ?_⟩, fun _ => ?_, fun bare => absurd isOpen.attached bare⟩
  · rw [isDead_macToDst]
    simp [isMacToDstDead, hasBeenBroken]
  · rw [isLive, isDead_knownMac]
    exact ⟨by simp, by simp [isMacToDstDead, hasBeenBroken]⟩

/-- Sound ports, some of which are open. -/
def SoundAndOpen (opened : Nat → Prop) (k : Nat) (port : VtepPort version) : Prop :=
  PortSound port ∧ (opened k → PortOpen port)

theorem portRule_soundAndOpen (opened : Nat → Prop) :
    PortRule (SoundAndOpen opened : Nat → VtepPort version → Prop) :=
  portRule_sound.and (portRule_open opened)

/-- Dropping `mac_to_dst` of ports that are open leaves sound ports. -/
theorem dropMacToDst_steps {ports : List Nat} (distinct : ports.Nodup) :
    Spec (Steady (SoundAndOpen (· ∈ ports)) succeed flags)
      (dropMacToDst ports : VtepM ι version Unit)
      (fun _ => Steady (fun _ port => PortSound port) succeed flags)
      AbortStop := by
  induction ports with
  | nil => exact Spec.pure (fun _ steady => steady.weaken (fun _ _ both => both.1))
  | cons i rest ih =>
    obtain ⟨notLater, restDistinct⟩ := nodup_cons.mp distinct
    refine Spec.bind ?_ (fun _ => ih restDistinct)
    refine (dropTable_steps (fun _ _ => rfl)
      (fun _ isOpen => isOpen.macToDst) (fun _ _ _ there => there)
      ?_).weaken (fun _ steady => steady.weaken ?_)
      (fun _ _ after => after) (fun _ _ stopped => stopped)
    · intro port _ isOpen
      have dropped := portSound_dropMacToDst isOpen
      exact ⟨dropped, fun member => absurd member notLater⟩
    · intro k port both
      exact ⟨⟨both.1, fun later => both.2 (mem_cons_of_mem _ later)⟩,
        fun here => both.2 (here ▸ mem_cons_self)⟩

theorem fromVtep_steps (rule : PortRule holds) (sound : ∀ k port, holds k port → PortSound port)
    (implies : ∀ k port, holds k port → after k port) {brick : Brick ι} {fromSide : Side}
    (drops : succeed = false → Spec (Steady holds succeed flags) (dropMacToDst (List.range
        (brick.sides (pgFlipSide fromSide)).nb) : VtepM ι version Unit) (fun _ => Steady after
        succeed flags) AbortStop) (pktsMask : BitVec 64) :
    Spec (Steady holds succeed flags) (fromVtep brick fromSide pktsMask : VtepM ι version Int)
      (fun _ => Steady after succeed flags) AbortStop := by
  refine Spec.read (fun seen steady => ?_)
  refine Spec.startingAt (Spec.tryCatch
      (((decapRule_steady rule sound brick fromSide).decapsulates pktsMask
        seen.state.flags).ending (fun _ _ post => post.weaken implies)) (fun reason => ?_)) steady
  cases reason with
  | raised =>
    refine Spec.of_start (fun start caught => ?_)
    refine Spec.bind ((drops caught.1).startingAt caught.2) (fun _ => ?_)
    exact Keeps.bind (setError_keeps steady_packetBlind _) (fun _ => Keeps.pure _)
  | freedTable => exact fun _ caught => absurd caught id
  | aborted abort => exact Spec.throw (fun _ _ => ⟨abort, rfl⟩)

end Handlers

end PacketGraph
