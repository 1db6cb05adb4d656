import PacketGraph.Switch.Runs

namespace PacketGraph

open BitScan BitMap TransitionSystem

/-!
# The learning table names linked ports

Entries are made for the port a burst comes in on, and removed when the link
of their port breaks.  They all name linked ports in every run that breaks
links only while the iteration over the tables reaches every entry.
-/

variable {ι τ : Type}

/-- The iteration over the table of every switch reaches all its entries. -/
def IterationComplete (graph : Graph ι (Node SwitchState τ)) : Prop :=
  ∀ brick state, graph.priv brick = .own state → state.isTableDead = false →
    FirstWordReached state.table

/-- Links are broken only while the iteration over tables is complete. -/
def UnlinkWhenComplete (graph : Graph ι (Node SwitchState τ)) (event : SwitchEvent ι) : Prop :=
  match event with
  | .call (.unlink _) => IterationComplete graph
  | .call (.unlinkEdge _ _) => IterationComplete graph
  | _ => True

/-- Entries are linked, and the iteration over the table is complete. -/
def EntriesForgettable (brick : Brick ι) (state : SwitchState) : Prop :=
  EntriesLinked brick state ∧ (state.isTableDead = false → FirstWordReached state.table)

variable {brick : Brick ι} {state : SwitchState}

/-- A new link keeps the entries linked. -/
theorem EntriesLinked.attach (linked : EntriesLinked brick state)
    {side : Side} {index : Nat} (free : FreeSlot brick side index) (target : ι) (pairIndex : Nat) :
    EntriesLinked (attach brick side index target pairIndex) state := by
  intro key pointer learnt
  rw [linkAt_attach free]
  split
  · rfl
  · exact linked key pointer learnt

section

variable (sound : state.Sound) (forgettable : EntriesForgettable brick state)

include sound forgettable

/-- A notified switch still has entries of linked ports only. -/
theorem EntriesForgettable.notified (side : Side) (index : Nat) :
    EntriesForgettable brick (switchUnlinkNotify state side index) ∧ ∀ key,
        (switchUnlinkNotify state side index).learnt key ≠ some (side, index) := by
  obtain ⟨afterSound, _, sameDead, sameMask, learntAfter⟩ :=
    switchUnlinkNotify_spec sound side index
  have stillLearnt : ∀ key pointer,
        (switchUnlinkNotify state side index).learnt key = some pointer →
        state.learnt key = some pointer := by
    intro key pointer learnt
    rw [learntAfter] at learnt
    split at learnt
    · exact absurd learnt (by simp)
    · exact learnt
  refine ⟨⟨?_, ?_⟩, ?_⟩
  · intro key pointer learnt
    exact forgettable.1 key pointer (stillLearnt key pointer learnt)
  · intro alive
    have wasAlive : state.isTableDead = false := by
      rw [← sameDead]
      exact alive
    have reached := forgettable.2 wasAlive
    rw [firstWordReached_iff (sound.wellFormed wasAlive)] at reached
    rw [firstWordReached_iff (afterSound.wellFormed alive)]
    intro key present skipped
    obtain ⟨pointer, found⟩ := Option.isSome_iff_exists.mp present
    have before := stillLearnt key pointer (by simp [SwitchState.learnt, alive, found])
    simp only [SwitchState.learnt, wasAlive, Bool.false_eq_true, ↓reduceIte] at before
    refine reached key (by simp [before]) ?_
    unfold Skipped at skipped ⊢
    rw [sameMask] at skipped
    exact skipped
  · intro key learnt
    have before := stillLearnt key (side, index) learnt
    have wasAlive : state.isTableDead = false := by
      by_contra dead
      simp [SwitchState.learnt, dead] at before
    have notSkipped : ¬ Skipped state.table key := by
      have reached := forgettable.2 wasAlive
      rw [firstWordReached_iff (sound.wellFormed wasAlive)] at reached
      apply reached
      simp only [SwitchState.learnt, wasAlive, Bool.false_eq_true, ↓reduceIte] at before
      simp [before]
    rw [learntAfter] at learnt
    simp [notSkipped, before] at learnt

/-- Breaking a link keeps the entries of the notified switch linked. -/
theorem EntriesForgettable.detached {side : Side} {index : Nat} {link : ι × Nat}
    (linked : brick.linkAt side index = some link) :
    EntriesForgettable (detach brick side index) (switchUnlinkNotify state side index) := by
  obtain ⟨⟨entriesLinked, complete⟩, forgotten⟩ := forgettable.notified sound side index
  refine ⟨?_, complete⟩
  intro key pointer learnt
  rw [linkAt_detach linked]
  split
  · rename_i same
    have isPointer : pointer = (side, index) := Prod.ext same.1 same.2
    rw [isPointer] at learnt
    exact absurd learnt (forgotten key)
  · exact entriesLinked key pointer learnt

end

theorem keptByAttach_entriesLinked :
    KeptByAttach (SwitchHolds EntriesLinked : Brick ι → SwitchState → Prop) :=
  keptByAttach_switchHolds (fun _ _ _ _ target pairIndex linked free =>
      linked.attach free target pairIndex)

/-- Forgettable entries stay so when a link is added. -/
theorem keptByAttach_entriesForgettable :
    KeptByAttach (SwitchHolds EntriesForgettable : Brick ι → SwitchState → Prop) :=
  keptByAttach_switchHolds (fun _ _ _ _ target pairIndex forgettable free =>
      ⟨forgettable.1.attach free target pairIndex, forgettable.2⟩)

/-- Forgettable entries stay so when a link breaks. -/
theorem keptByUnlink_entriesForgettable :
    KeptByUnlink (switchOps ι) (SwitchHolds EntriesForgettable) :=
  keptByUnlink_switchHolds (fun _ _ side index sound forgettable =>
      (forgettable.notified sound side index).1)
    (fun _ _ _ _ _ sound forgettable linked => forgettable.detached sound linked)

variable [DecidableEq ι] [Fintype ι] {others : BrickOps ι τ}

/-- A call made while iteration is complete keeps the entries linked. -/
theorem entriesLinked_of_exec
    {graph after : Graph ι (Node SwitchState τ)} {call : LinkCall ι} {outcome : Option PgError}
    (holds : SwitchGraph EntriesLinked graph) (complete : IterationComplete graph)
    (executed : call.exec (nodeOps (switchOps ι) others) graph = .ok (outcome, after)) :
    SwitchGraph EntriesLinked after := by
  have forgettable : SwitchGraph EntriesForgettable graph := by
    refine ⟨holds.links, ?_⟩
    intro brick state isSwitch
    obtain ⟨multipole, sound, linked⟩ := holds.nodes brick state isSwitch
    exact ⟨multipole, sound, linked, complete brick state isSwitch⟩
  obtain ⟨links, nodes⟩ :=
    forgettable.exec keptByAttach_entriesForgettable keptByUnlink_entriesForgettable executed
  refine ⟨links, ?_⟩
  intro brick state isSwitch
  obtain ⟨multipole, sound, linked, _⟩ := nodes brick state isSwitch
  exact ⟨multipole, sound, linked⟩

/-- Entries are linked when links break only while iteration is complete. -/
theorem switchGraph_entriesLinked {graph : Graph ι (Node SwitchState τ)}
    (reachable : ((switchSystem others).guarded UnlinkWhenComplete).Reachable graph) :
    SwitchGraph EntriesLinked graph := by
  refine reachable.invariant ?_ ?_
  · intro start made
    have allMade : (switchSystem others).initial start := made
    refine switchGraph_initial ?_ allMade
    intro brick state _ noEntry key pointer learnt
    rw [noEntry] at learnt
    exact absurd learnt (by simp)
  · rintro before event after holds ⟨guard, step⟩
    cases event with
    | call call =>
      obtain ⟨outcome, executed⟩ := step
      cases call with
      | link west east =>
        exact holds.joins keptByAttach_entriesLinked
          (pgBrickLink_returns holds.links west east) executed
      | chainedLinks west easts =>
        exact holds.joins keptByAttach_entriesLinked
          (pgBrickChainedLinks_returns holds.links west easts) executed
      | unlinkEdge west east | unlink target => exact entriesLinked_of_exec holds guard executed
    | burst input =>
      obtain ⟨state, rounds, code, error, sends, stateAfter, isSwitch,
        linkedPort, returned, rfl⟩ := step
      refine holds.update isSwitch ?_
      rintro _ ⟨multipole, sound, linked⟩
      obtain ⟨afterSound, learnt⟩ := run_returned sound returned
      refine ⟨multipole, afterSound, ?_⟩
      intro key pointer found
      rcases learnt key pointer found with here | before
      · rw [here]
        exact linkedPort
      · exact linked key pointer before

/--
In every run that breaks links only while the iteration over the tables of the
switches is complete, every MAC in the table of a switch maps to a port that
is linked.
-/
theorem switch_entry_linked {graph : Graph ι (Node SwitchState τ)}
    (reachable : ((switchSystem others).guarded UnlinkWhenComplete).Reachable graph)
    {brick : ι} {state : SwitchState} (isSwitch : graph.priv brick = .own state)
    (alive : state.isTableDead = false) {mac : Mac} {pointer : SourcePointer}
    (found : pgMacTablePtrGet state.table mac = some pointer) :
    ((graph.brick brick).linkAt (state.sources pointer.1 pointer.2).fromSide
        (state.sources pointer.1 pointer.2).edgeIndex).isSome = true := by
  obtain ⟨_, sound, linked⟩ := (switchGraph_entriesLinked reachable).nodes brick state isSwitch
  have learnt : state.learnt (macKey mac) = some pointer := by
    rw [pgMacTablePtrGet, macTableGet_eq_contents] at found
    simp [SwitchState.learnt, alive, found]
  rw [sound.written _ _ learnt]
  exact linked _ _ learnt

/-- The other brick of the mesh is linked to the west of the switch. -/
def meshLinked : Graph Bool (Node SwitchState Unit) :=
  meshGraph.after meshOps (.link (some true) (some false))

/-- The mesh once the switch has learnt the source of a frame. -/
def meshLearnt (masks : Side → Nat → BitVec 64) : Graph Bool (Node SwitchState Unit) :=
  { meshLinked with
    priv :=
      Function.update meshLinked.priv false
        (.own (meshState (singleEntry 2#64 (Side.west, 0)).table masks)) }

theorem meshLearnt_reachable :
    ∃ masks, ((switchSystem (quietOps Bool)).guarded UnlinkWhenComplete).Reachable
        (meshLearnt masks) := by
  have linked : ((switchSystem (quietOps Bool)).guarded UnlinkWhenComplete).Reachable
        meshLinked :=
    .step (.call (.link (some true) (some false))) (.initial meshGraph_initial) ⟨trivial, none, rfl⟩
  obtain ⟨code, sends, masks, returned⟩ : ∃ code sends masks, meshBurst.run (meshLinked.brick false)
            (meshState (freshTable SourcePointer).table (fun _ _ => 0#64)) 1 =
          .returned code none sends (meshState (singleEntry 2#64 (Side.west, 0)).table masks) :=
    ⟨_, _, _, meshBurst_run (by decide) (by decide) (by decide) _⟩
  exact ⟨masks, .step (.burst meshBurst) linked
    ⟨trivial, _, 1, code, none, sends, _, rfl, rfl, returned, rfl⟩⟩

theorem singleEntry_found :
    pgMacTablePtrGet (singleEntry 2#64 (Side.west, 0)).table 2#64 = some (.west, 0) := by
  decide

/-- A mesh whose switch is linked once on each side. -/
def meshForked : Graph Bool (Node SwitchState Unit) :=
  meshLinked.after meshOps (.link (some false) (some true))

/-- A multicast frame with source 00:00:00:02:00:00, which is in the first sub-table. -/
def lowFrame : Frame :=
  fun offset => if offset = dAddr then 1#8 else if offset = sAddr + 3 then 2#8 else 0#8

/-- The switch once it has learnt the source of that frame on its west port. -/
def lowState (masks : Side → Nat → BitVec 64) : SwitchState :=
  meshState (singleEntry 0x2000000#64 (Side.west, 0)).table masks

/-- The forked mesh once its switch has learnt that source. -/
def meshLow (masks : Side → Nat → BitVec 64) : Graph Bool (Node SwitchState Unit) :=
  { meshForked with priv := Function.update meshForked.priv false (.own (lowState masks)) }

theorem meshLow_reachable :
    ∃ masks, ((switchSystem (quietOps Bool)).guarded UnlinkWhenComplete).Reachable
        (meshLow masks) := by
  have linked : ((switchSystem (quietOps Bool)).guarded UnlinkWhenComplete).Reachable meshForked :=
    .step (.call (.link (some false) (some true))) (.step (.call (.link (some true) (some false)))
      (.initial meshGraph_initial) ⟨trivial, none, rfl⟩) ⟨trivial, none, rfl⟩
  obtain ⟨code, sends, masks, returned⟩ : ∃ code sends masks,
        BurstInput.run { meshBurst with pkts := fun _ => lowFrame } (meshForked.brick false)
            (meshState (freshTable SourcePointer).table (fun _ _ => 0#64)) 1 =
          .returned code none sends (lowState masks) :=
    ⟨_, _, _, meshBurst_run (by decide) (by decide) (by decide) _⟩
  exact ⟨masks, .step (.burst { meshBurst with pkts := fun _ => lowFrame }) linked
    ⟨trivial, _, 1, code, none, sends, _, rfl, rfl, returned, rfl⟩⟩

/-- A learnt MAC is found at a linked port after the other link was broken. -/
theorem switch_entry_linked_mesh :
    ∃ (graph : Graph Bool (Node SwitchState Unit)) (state : SwitchState),
      ((switchSystem (quietOps Bool)).guarded UnlinkWhenComplete).Reachable graph ∧
        graph.priv false = .own state ∧
        (graph.brick false).linkAt .east 0 = none ∧
        pgMacTablePtrGet state.table 0x2000000#64 = some (.west, 0) ∧
        ((graph.brick false).linkAt .west 0).isSome = true := by
  obtain ⟨masks, learns⟩ := meshLow_reachable
  have complete : IterationComplete (meshLow masks) := by
    rintro (_ | _) state isSwitch _
    · rw [← Node.own.inj isSwitch]
      have first : testBit (singleEntry 0x2000000#64 (Side.west, 0)).table.mask 0 = true := by
        decide
      exact .inl first
    · cases isSwitch
  have reachable : ((switchSystem (quietOps Bool)).guarded UnlinkWhenComplete).Reachable
        ((meshLow masks).after meshOps (.unlinkEdge (some false) (some true))) :=
    .step (.call (.unlinkEdge (some false) (some true))) learns ⟨complete, none, rfl⟩
  have sound : (lowState masks).Sound :=
    ((switchGraph_entriesLinked learns).nodes false _ rfl).2.1
  obtain ⟨_, _, alive, _, learnt⟩ := switchUnlinkNotify_spec sound .east 0
  have isAlive : (switchUnlinkNotify (lowState masks) .east 0).isTableDead = false := alive
  have wasLearnt : (lowState masks).learnt (macKey 0x2000000#64) = some (.west, 0) := by
    have contents : (singleEntry 0x2000000#64 (Side.west, 0)).table.contents
          (macKey 0x2000000#64) = some (.west, 0) := by
      decide
    exact (if_neg Bool.false_ne_true).trans contents
  have found : pgMacTablePtrGet (switchUnlinkNotify (lowState masks) .east 0).table
        0x2000000#64 = some (.west, 0) := by
    have kept := learnt (macKey 0x2000000#64)
    rw [wasLearnt, if_neg (by simp)] at kept
    rw [pgMacTablePtrGet, macTableGet_eq_contents, ← kept]
    simp [SwitchState.learnt, isAlive]
  exact ⟨_, _, reachable, rfl, rfl, found, switch_entry_linked reachable rfl isAlive found⟩

/-- A learnt MAC still names its port once the link of the port is broken. -/
theorem switch_entry_outlives_link :
    ∃ (graph : Graph Bool (Node SwitchState Unit)) (state : SwitchState),
      (switchSystem (quietOps Bool)).Reachable graph ∧ graph.priv false = .own state ∧
        state.isTableDead = false ∧
        pgMacTablePtrGet state.table 2#64 = some (.west, 0) ∧
        state.sources .west 0 = { edgeIndex := 0, fromSide := .west } ∧
        (graph.brick false).linkAt .west 0 = none := by
  obtain ⟨masks, reachable⟩ := meshLearnt_reachable
  have unlinked : (switchSystem (quietOps Bool)).Reachable ((meshLearnt masks).after meshOps
          (.unlinkEdge (some true) (some false))) :=
    .step (.call (.unlinkEdge (some true) (some false))) reachable.of_guarded ⟨none, rfl⟩
  have sound : (meshState (singleEntry 2#64 (Side.west, 0)).table masks).Sound :=
    ((switchGraph_entriesLinked reachable).nodes false _ rfl).2.1
  have skipped : Skipped (meshState (singleEntry 2#64 (Side.west, 0)).table masks).table
        (macKey 2#64) := by
    show Skipped (singleEntry 2#64 (Side.west, 0)).table (macKey 2#64)
    decide
  obtain ⟨_, _, alive, _, learnt⟩ := switchUnlinkNotify_spec sound .west 0
  have kept := learnt (macKey 2#64)
  have isAlive : (meshState (singleEntry 2#64 (Side.west, 0)).table masks).isTableDead =
        false :=
    rfl
  simp only [skipped, not_true_eq_false, false_and, ↓reduceIte,
    SwitchState.learnt, alive, isAlive, Bool.false_eq_true] at kept
  refine ⟨_, switchUnlinkNotify (meshState (singleEntry 2#64 (Side.west, 0)).table masks) .west 0,
    unlinked, rfl, alive, ?_, rfl, rfl⟩
  rw [← singleEntry_found]
  exact kept

end PacketGraph
