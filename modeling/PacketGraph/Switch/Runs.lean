import PacketGraph.Switch.Delivery
import PacketGraph.MacTable.Runs
import PacketGraph.Brick.Nodes

namespace PacketGraph

open BitScan BitMap TransitionSystem

/-!
# Runs of a graph with switches

A run makes linking calls on a graph whose bricks are switches and bricks of
any other kind, and bursts into its switches on linked ports.  Other kinds of
bricks are an environment: their callbacks and the answers to the bursts they
get are arbitrary.
-/

variable {ι τ : Type}

/-- The `unlink_notify` callback of a switch, which sets no error. -/
def switchOps (ι : Type) : BrickOps ι SwitchState where
  unlinkNotify := fun _ state side index => (switchUnlinkNotify state side index, none)

/-- A burst into a switch, with what its environment does. -/
structure BurstInput (ι : Type) where
  target : ι
  fromSide : Side
  edgeIndex : Nat
  pkts : Nat → Frame
  pktsMask : BitVec 64
  malloc : Malloc
  neighbours : Neighbours

/-- Handle a burst for at most the given rounds. -/
def BurstInput.run (input : BurstInput ι) (brick : Brick ι) (state : SwitchState) (rounds : Nat)
    : SwitchOutcome ι :=
  switchBurst brick input.fromSide input.edgeIndex input.pkts input.pktsMask
    input.neighbours rounds input.malloc state

/-- One step of a run. -/
inductive SwitchEvent (ι : Type) where
  | call (call : LinkCall ι)
  | burst (input : BurstInput ι)

/-- The port a burst comes in on is linked. -/
def BurstInput.Linked (input : BurstInput ι) (brick : Brick ι) : Prop :=
  (brick.linkAt input.fromSide input.edgeIndex).isSome = true

/-- A brick as `pg_switch_new` or `pg_brick_new` makes it. -/
def NodeMade (brick : Brick ι) (node : Node SwitchState τ) : Prop :=
  (∃ malloc name westMax eastMax output state,
    pgSwitchNew malloc name westMax eastMax output = .ok (brick, state) ∧ node = .own state) ∨
    ∃ registry name config state, pgBrickNew registry name config = .ok (brick, state) ∧
        node = .other state

/-- The runs of a graph with switches. -/
def switchSystem [DecidableEq ι] (others : BrickOps ι τ) :
    System (Graph ι (Node SwitchState τ)) (SwitchEvent ι) where
  initial := fun graph => ∀ brick, NodeMade (graph.brick brick) (graph.priv brick)
  step := fun before event after => match event with
    | .call call =>
      ∃ outcome, call.exec (nodeOps (switchOps ι) others) before = .ok (outcome, after)
    | .burst input =>
      ∃ state rounds code error sends stateAfter, before.priv input.target = .own state ∧
          input.Linked (before.brick input.target) ∧
          input.run (before.brick input.target) state rounds =
            .returned code error sends stateAfter ∧ after = { before with
              priv :=
                Function.update before.priv input.target (.own stateAfter) }

/-- What a switch forgets when it is notified of a breaking link. -/
theorem switchUnlinkNotify_spec {state : SwitchState} (sound : state.Sound)
    (side : Side) (index : Nat) :
    (switchUnlinkNotify state side index).Sound ∧
      (switchUnlinkNotify state side index).masks = state.masks ∧
      (switchUnlinkNotify state side index).isTableDead = state.isTableDead ∧
      (switchUnlinkNotify state side index).table.mask = state.table.mask ∧
      ∀ key, (switchUnlinkNotify state side index).learnt key = if ¬ Skipped state.table key ∧
              state.learnt key = some (side, index) then
            none
          else
            state.learnt key := by
  cases dead : state.isTableDead with
  | true =>
    have unchanged : switchUnlinkNotify state side index = state := by
      simp [switchUnlinkNotify, dead]
    rw [unchanged]
    refine ⟨sound, rfl, dead, rfl, fun key => ?_⟩
    simp [SwitchState.learnt, dead]
  | false =>
    have wellFormed := sound.wellFormed dead
    have looped := foreachPtr_spec wellFormed (cameFrom state.sources side index)
    have notified : switchUnlinkNotify state side index = { state with
            table :=
              (foreachPtr state.table (cameFrom state.sources side index)).2 } := by
      simp only [switchUnlinkNotify, dead, Bool.false_eq_true, ↓reduceIte]
    have contents : ∀ key, (foreachPtr state.table
              (cameFrom state.sources side index)).2.contents key = if ¬ Skipped state.table key ∧
                state.table.contents key = some (side, index) then
              none
            else
              state.table.contents key := by
      intro key
      rw [looped.contents]
      simp only [mem_visibleKeys wellFormed]
      cases found : state.table.contents key with
      | none => simp
      | some pointer =>
        have written := sound.written key pointer (by simp [SwitchState.learnt, dead, found])
        rcases pointer with ⟨otherSide, otherIndex⟩
        simp only at written
        simp [cameFrom, written]
    rw [notified]
    refine ⟨⟨fun _ => looped.wellFormed, fun _ => ?_, ?_⟩, rfl, dead, looped.mask, fun key => ?_⟩
    · intro part1 isSet
      simp only [looped.mask] at isSet
      simp only [looped.entries]
      exact sound.complete dead part1 isSet
    · intro key pointer learnt
      apply sound.written key pointer
      simp only [SwitchState.learnt, dead, Bool.false_eq_true, ↓reduceIte, contents] at learnt ⊢
      split at learnt
      · exact absurd learnt (by simp)
      · exact learnt
    · simp only [SwitchState.learnt, dead, Bool.false_eq_true, ↓reduceIte, contents]

/-- What holds of every switch of a run, and a further property. -/
def SwitchHolds (property : Brick ι → SwitchState → Prop) (brick : Brick ι) (state : SwitchState)
    : Prop :=
  brick.type = .multipole ∧ state.Sound ∧ property brick state

variable {property : Brick ι → SwitchState → Prop}

/-- A property of switches kept by attaching a link. -/
theorem keptByAttach_switchHolds (kept : KeptByAttach property) :
    KeptByAttach (SwitchHolds property) := by
  intro brick state side index target pairIndex holds free
  obtain ⟨multipole, sound, specific⟩ := holds
  exact ⟨by rw [type_attach]; exact multipole, sound, kept _ _ _ _ _ _ specific free⟩

/-- A property of switches kept by the notification of a breaking link. -/
theorem keptByUnlink_switchHolds
    (notified : ∀ (brick : Brick ι) (state : SwitchState) (side : Side) (index : Nat), state.Sound →
        property brick state → property brick (switchUnlinkNotify state side index))
    (detached : ∀ (brick : Brick ι) (state : SwitchState) (side : Side) (index : Nat) (link : ι ×
        Nat), state.Sound → property brick state → brick.linkAt side index = some link → property
        (detach brick side index) (switchUnlinkNotify state side index)) :
    KeptByUnlink (switchOps ι) (SwitchHolds property) := by
  constructor
  · rintro brick state side index link ⟨multipole, sound, specific⟩ linked
    exact ⟨multipole, (switchUnlinkNotify_spec sound side index).1, notified _ _ _ _ sound specific⟩
  · rintro brick state side index link ⟨multipole, sound, specific⟩ linked _
    exact ⟨by rw [type_detach]; exact multipole, (switchUnlinkNotify_spec sound side index).1,
      detached _ _ _ _ _ sound specific linked⟩

variable {brick : Brick ι}

/-- The state of a new switch. -/
theorem pgSwitchNew_spec {malloc : Malloc} {name : String} {westMax eastMax : Nat} {output : Side}
    {state : SwitchState}
    (made : pgSwitchNew malloc name westMax eastMax output = .ok (brick, state)) :
    Fresh brick ∧ brick.type = .multipole ∧ state.Sound ∧
      MasksClear state ∧ ∀ key, state.learnt key = none := by
  obtain ⟨entry, member, admitted, isConfig, checked, started, allocated⟩ := pgBrickNew_eq_ok made
  rw [List.mem_singleton] at member
  subst member
  simp only [Option.some.injEq] at isConfig
  subst isConfig
  simp only [switchInit] at started
  split at started
  · exact absurd started (by simp)
  · rename_i table isTable
    simp only [Except.ok.injEq] at started
    subst started
    obtain ⟨wellFormed, empty⟩ := pgMacTableInit_eq_some isTable
    have noEntry : ∀ key, SwitchState.learnt
          { table := table
            isTableDead := false
            output := output
            sources := fun _ _ => { edgeIndex := 0, fromSide := .west }
            masks := fun _ _ => 0#64 } key = none :=
      fun key => by simp [SwitchState.learnt, empty]
    refine ⟨allocEdges_fresh checked allocated, (allocEdges_eq_ok allocated).1,
      ⟨fun _ => wellFormed, fun _ => pgMacTableInit_complete isTable, ?_⟩, fun _ _ => rfl, noEntry⟩
    intro key pointer learnt
    rw [noEntry] at learnt
    exact absurd learnt (by simp)

/-- What a burst does to a sound switch, however it ends. -/
theorem run_returned {input : BurstInput ι} {state after : SwitchState} (sound : state.Sound)
    {rounds : Nat} {code : Int} {error : Option PgError} {sends : List (Send ι)}
    (returned : input.run brick state rounds = .returned code error sends after) :
    after.Sound ∧ ∀ key pointer, after.learnt key = some pointer →
        pointer = (input.fromSide, input.edgeIndex) ∨ state.learnt key = some pointer := by
  unfold BurstInput.run at returned
  rcases switchBurst_cases input.neighbours rounds input.malloc sound with
    ⟨_, outOfRounds | ⟨left, isLeft, dead, _⟩⟩ |
    ⟨live, filteredMask, floodMask, learnt, finished⟩
  · rw [outOfRounds] at returned
    exact absurd returned (by simp)
  · rw [isLeft] at returned
    simp only [SwitchOutcome.returned.injEq] at returned
    obtain ⟨_, _, _, rfl⟩ := returned
    refine ⟨SwitchState.sound_of_dead dead, ?_⟩
    intro key pointer found
    simp [SwitchState.learnt, dead] at found
  · rw [finished] at returned
    simp only [switchPackets, SwitchOutcome.returned.injEq] at returned
    obtain ⟨_, _, _, rfl⟩ := returned
    exact ⟨⟨learnt.sound.wellFormed, learnt.sound.complete, learnt.sound.written⟩, learnt.learnt⟩

section Graph

variable [DecidableEq ι] [Fintype ι] {others : BrickOps ι τ}

/-- Everything that holds of the switches of a run. -/
abbrev SwitchGraph (property : Brick ι → SwitchState → Prop) (graph : Graph ι (Node SwitchState τ))
    : Prop :=
  NodeGraph (SwitchHolds property) graph

/-- A graph of new bricks has all properties of new switches. -/
theorem switchGraph_initial {property : Brick ι → SwitchState → Prop}
    (atStart : ∀ (brick : Brick ι) state, MasksClear state → (∀ key, state.learnt key = none) →
        property brick state)
    {graph : Graph ι (Node SwitchState τ)} (made : (switchSystem others).initial graph) :
    SwitchGraph property graph := by
  constructor
  · apply linkInvariant_of_fresh
    intro brick
    rcases made brick with
      ⟨_, _, _, _, _, _, isNew, _⟩ | ⟨_, _, _, _, isNew, _⟩
    · exact (pgSwitchNew_spec isNew).1
    · exact pgBrickNew_fresh isNew
  · intro brick state isSwitch
    rcases made brick with
      ⟨_, _, _, _, _, newState, isNew, isNode⟩ | ⟨_, _, _, _, _, isNode⟩
    · obtain ⟨_, multipole, sound, clear, noEntry⟩ := pgSwitchNew_spec isNew
      rw [isNode] at isSwitch
      simp only [Node.own.injEq] at isSwitch
      subst isSwitch
      exact ⟨multipole, sound, atStart _ _ clear noEntry⟩
    · rw [isNode] at isSwitch
      exact absurd isSwitch (by simp)

end Graph

/-- The configuration of both bricks of a small program. -/
def meshConfig : BrickConfig where
  name := "mesh"
  westMax := 2
  eastMax := 2
  type := .multipole

/-- A side with two free ports. -/
def meshSide : BrickSide Bool where
  max := 2
  nb := 0
  edges := freshEdges Bool .multipole 2

/-- A switch that has only learnt on its first west port. -/
def meshState (table : MacTable SourcePointer) (masks : Side → Nat → BitVec 64) : SwitchState where
  table := table
  isTableDead := false
  output := .west
  sources := fun _ _ => { edgeIndex := 0, fromSide := .west }
  masks := masks

/-- The callbacks of a switch and a brick without callbacks. -/
def meshOps : BrickOps Bool (Node SwitchState Unit) :=
  nodeOps (switchOps Bool) (quietOps Bool)

/-- The small program before any call: a switch and another multipole. -/
def meshGraph : Graph Bool (Node SwitchState Unit) where
  brick := fun _ => { blankBrick Bool meshConfig with west := meshSide, east := meshSide }
  priv
    | false => .own (meshState (freshTable SourcePointer).table (fun _ _ => 0#64))
    | true => .other ()

theorem meshGraph_initial : (switchSystem (quietOps Bool)).initial meshGraph := by
  intro brick
  cases brick with
  | false => exact Or.inl ⟨mallocSucceeds, "mesh", 2, 2, .west, _, rfl, rfl⟩
  | true => exact Or.inr ⟨nopRegistry, some "nop", some meshConfig, (), rfl, rfl⟩

/-- A multicast frame with source 02:00:00:00:00:00. -/
def meshFrame : Frame :=
  fun offset => if offset = dAddr then 1#8 else if offset = sAddr then 2#8 else 0#8

/-- Neighbours that accept every burst and never burst back. -/
def quietNeighbours : Neighbours where
  answers := fun _ => 0
  marks := fun _ masks => masks

/-- A burst of one frame on the first west port of the switch. -/
def meshBurst : BurstInput Bool where
  target := false
  fromSide := .west
  edgeIndex := 0
  pkts := fun _ => meshFrame
  pktsMask := 1#64
  malloc := mallocSucceeds
  neighbours := quietNeighbours

theorem startLearning_meshState (table learnt : MacTable SourcePointer)
    (masks : Side → Nat → BitVec 64) :
    startLearning (meshState table masks) learnt .west 0 = meshState learnt masks := by
  simp only [startLearning, meshState, SwitchState.mk.injEq, true_and, and_true]
  funext side index
  exact ite_self _

/-- The switch learns the source of a multicast frame. -/
theorem meshBurst_run {frame : Frame} {mac : Mac} (source : macAt frame sAddr = mac)
    (notFiltered : isFiltered frame = false)
    (multicast : isMulticastEtherAddr frame dAddr = true) (brick : Brick Bool) :
    BurstInput.run { meshBurst with pkts := fun _ => frame } brick
        (meshState (freshTable SourcePointer).table (fun _ _ => 0#64)) 1 =
      switchPackets brick (meshState (singleEntry mac (Side.west, 0)).table (fun _ _ => 0#64))
        .west 0 (fun _ => frame) 1#64 quietNeighbours 0#64 1#64 := by
  have one : lowBits 1#64 = [0] := by decide +kernel
  have unset : testBit (fun _ => 0#64) (pgMacTablePart1 mac) = false := by simp [testBit]
  have learnt : learnFrom (Side.west, 0) (fun _ => frame) [0] mallocSucceeds
          (freshTable SourcePointer).table 0#64 0#64 =
        .learned (singleEntry mac (Side.west, 0)).table 0#64 1#64 := by
    simp [learnFrom, source, pgMacTablePtrSet, macTableSet, freshTable,
      unset, mallocSucceeds, storeEntry, SubTable.blank, singleEntry, notFiltered, multicast]
  have alive (table : MacTable SourcePointer) (masks : Side → Nat → BitVec 64) :
      (meshState table masks).isTableDead = false :=
    rfl
  simp only [BurstInput.run, meshBurst, switchBurst, one, alive, Bool.false_eq_true, ↓reduceIte]
  rw [startLearning_meshState]
  simp only [meshState, learnt]

end PacketGraph
