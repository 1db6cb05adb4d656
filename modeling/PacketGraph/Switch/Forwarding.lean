import PacketGraph.Switch.Learning

namespace PacketGraph

open BitMap BitScan BitVec Function TransitionSystem

/-!
# What a switch forwards, in every run

`flood` and `forward_bursts` serve the slots up to `nb`, while links may sit
at any slot up to `max`.  In a run whose bursts find the links of their switch
dense and its entries linked, and whose neighbours accept what they are sent and
do not burst back into the switch before they return, every burst is delivered
as its destinations ask, and no mark stays behind.
-/

variable {ι τ : Type}

/--
A burst that finds its switch in order, and whose neighbours accept it without
bursting back into the switch.
-/
def OrderlyBurst (graph : Graph ι (Node SwitchState τ)) (event : SwitchEvent ι) : Prop :=
  match event with
  | .call _ => True
  | .burst input =>
    LinksDense (graph.brick input.target) ∧
      (∀ state, graph.priv input.target = .own state →
        EntriesLinked (graph.brick input.target) state) ∧
      (∀ call, 0 ≤ input.neighbours.answers call) ∧
      input.neighbours.KeepAway

variable {brick : Brick ι} {input : BurstInput ι} {state : SwitchState}

section

variable (multipole : brick.type = .multipole) (sound : state.Sound)
  (accepted : ∀ call, 0 ≤ input.neighbours.answers call) (away : input.neighbours.KeepAway)

include multipole sound accepted away

/-- How a burst ends whose neighbours all accept what they are sent. -/
theorem run_accepted (rounds : Nat) :
    ((∃ call, input.malloc call = false) ∨ rounds = 0) ∧
        (input.run brick state rounds = .outOfRounds ∨ ∃ after, input.run brick state rounds =
              .returned (-1) (some (macTableNoMem brick)) [] after ∧
            after.masks = state.masks) ∨
      ∃ live filteredMask floodMask sends after,
        LearntBurst state input.fromSide input.edgeIndex input.pkts
            input.pktsMask live filteredMask floodMask ∧
          input.run brick state rounds = .returned 0 none sends after ∧
          SwitchedBurst brick state live input.fromSide input.edgeIndex
            input.pkts input.pktsMask sends after := by
  unfold BurstInput.run
  rcases switchBurst_cases input.neighbours rounds input.malloc sound with
    ⟨failing, outOfRounds | ⟨after, returned, _, sameMasks, _⟩⟩ |
    ⟨live, filteredMask, floodMask, learnt, finished⟩
  · exact Or.inl ⟨failing, Or.inl outOfRounds⟩
  · exact Or.inl ⟨failing, Or.inr ⟨after, returned, sameMasks⟩⟩
  · obtain ⟨sends, after, returned, switched⟩ := switchPackets_spec multipole learnt accepted away
    exact Or.inr ⟨live, filteredMask, floodMask, sends, after, learnt,
      finished.trans returned, switched⟩

/-- Without allocation failures, such a burst is switched. -/
theorem run_allocated (allocated : ∀ call, input.malloc call = true) (rounds : Nat) :
    ∃ live filteredMask floodMask sends after,
      LearntBurst state input.fromSide input.edgeIndex input.pkts
          input.pktsMask live filteredMask floodMask ∧
        input.run brick state (rounds + 1) = .returned 0 none sends after ∧
        SwitchedBurst brick state live input.fromSide input.edgeIndex
          input.pkts input.pktsMask sends after := by
  rcases run_accepted multipole sound accepted away (rounds + 1) with
    ⟨⟨call, failed⟩ | isZero, _⟩ | switched
  · rw [allocated] at failed
    exact absurd failed (by simp)
  · exact absurd isZero (by simp)
  · exact switched

end

variable {before live : SwitchState} {filteredMask floodMask : BitVec 64}

/-- Entries stay linked while a burst on a linked port is learnt. -/
theorem EntriesLinked.learnt (entriesLinked : EntriesLinked brick before)
    (linkedPort : input.Linked brick)
    (learnt : LearntBurst before input.fromSide input.edgeIndex input.pkts input.pktsMask live
        filteredMask floodMask) : EntriesLinked brick live := by
  intro key pointer found
  rcases learnt.learnt key pointer found with here | before
  · rw [here]
    exact linkedPort
  · exact entriesLinked key pointer before

variable {bit : Nat}

/-- A burst into a switch without marks sends packets of its own only. -/
theorem run_sends_own_packets {state after : SwitchState} (multipole : brick.type = .multipole)
    (sound : state.Sound) (clear : MasksClear state) (away : input.neighbours.KeepAway)
    {rounds : Nat} {code : Int}
    {error : Option PgError} {sends : List (Send ι)}
    (returned : input.run brick state rounds = .returned code error sends after) {send : Send ι}
    (sent : send ∈ sends) (carried : send.mask.getLsbD bit = true) :
    input.pktsMask.getLsbD bit = true := by
  have inside : bit < 64 := lt_of_getLsbD carried
  unfold BurstInput.run at returned
  rcases switchBurst_cases input.neighbours rounds input.malloc sound with
    ⟨_, outOfRounds | ⟨_, isLeft, _⟩⟩ |
    ⟨live, filteredMask, floodMask, learnt, finished⟩
  · rw [outOfRounds] at returned
    exact absurd returned (by simp)
  · rw [isLeft] at returned
    simp only [SwitchOutcome.returned.injEq] at returned
    rw [← returned.2.2.1] at sent
    exact absurd sent (by simp)
  · rw [finished] at returned
    simp only [switchPackets, SwitchOutcome.returned.injEq] at returned
    rw [← returned.2.2.1] at sent
    have marked := forwardPorts_marked multipole _ _ _ sent away carried
    unfold setMask at marked
    split at marked
    · exact absurd marked (by simp)
    · rw [getLsbD_markPackets learnt _ _ _ inside, clear,
        getLsbD_zero, Bool.false_or, Bool.and_eq_true] at marked
      exact marked.1

/-- What the packets of a burst reach, by their destinations. -/
structure Forwards (brick : Brick ι) (input : BurstInput ι) (sends : List (Send ι))
    (after : SwitchState) : Prop where
  throughLinks : ∀ send ∈ sends, brick.linkAt send.side send.index =
          some (send.target, send.edgeIndex) ∧ send.fromSide = pgFlipSide send.side
  outside : ∀ bit, input.pktsMask.getLsbD bit = false →
      ∀ side index, deliveries sends side index bit = 0
  filtered : ∀ bit, isFiltered (input.pkts bit) = true →
      ∀ side index, deliveries sends side index bit = 0
  flooded : ∀ bit, input.pktsMask.getLsbD bit = true → isFiltered (input.pkts bit) = false →
      (isMulticastEtherAddr (input.pkts bit) dAddr = true ∨
        pgMacTablePtrGet after.table (macAt (input.pkts bit) dAddr) = none) → ∀ side index,
        deliveries sends side index bit = if (brick.linkAt side index).isSome = true ∧
              (side, index) ≠ (input.fromSide, input.edgeIndex) then 1 else 0
  known : ∀ bit port pointer, input.pktsMask.getLsbD bit = true →
      isFiltered (input.pkts bit) = false → isMulticastEtherAddr (input.pkts bit) dAddr = false →
      pgMacTablePtrGet after.table (macAt (input.pkts bit) dAddr) = some pointer →
      after.sources pointer.1 pointer.2 =
        { edgeIndex := port.2, fromSide := port.1 } → ∀ side index,
        deliveries sends side index bit = if (side, index) = port ∧
              port ≠ (input.fromSide, input.edgeIndex) then 1 else 0

/-- A packet place out of range is never delivered. -/
theorem deliveries_eq_zero_of_le (sends : List (Send ι)) (side : Side) (index : Nat)
    (outOfRange : 64 ≤ bit) : deliveries sends side index bit = 0 := by
  unfold deliveries
  rw [List.countP_eq_zero]
  intro send _
  simp [getLsbD_of_ge send.mask bit outOfRange]

/-- A switched burst reaches what its destinations ask for. -/
theorem SwitchedBurst.forwards {after : SwitchState} {sends : List (Send ι)}
    (learnt : LearntBurst before input.fromSide input.edgeIndex input.pkts input.pktsMask live
        filteredMask floodMask) (clear : MasksClear before)
    (entriesLinked : EntriesLinked brick live) (dense : LinksDense brick)
    (throughLinks : ∀ send ∈ sends, brick.linkAt send.side send.index = some (send.target,
        send.edgeIndex) ∧ send.fromSide = pgFlipSide send.side)
    (switched : SwitchedBurst brick before live input.fromSide input.edgeIndex input.pkts
        input.pktsMask sends after) : Forwards brick input sends after := by
  have sameTable : after.table = live.table := by rw [switched.table]
  have sameSources : after.sources = live.sources := by rw [switched.table]
  have isMarked (side : Side) (index bit : Nat) :
      marked brick before live input.pkts input.pktsMask side index bit =
        (input.pktsMask.getLsbD bit && destined (fun side => (brick.sides side).nb) live
            (input.pkts bit) side index) := by
    simp [marked, clear side index]
  have inRange {bit : Nat} (inMask : input.pktsMask.getLsbD bit = true) : bit < 64 := by
    by_contra outOfRange
    rw [getLsbD_of_ge _ _ (Nat.le_of_not_lt outOfRange)] at inMask
    exact absurd inMask (by simp)
  refine ⟨throughLinks, ?_, ?_, ?_, ?_⟩
  · intro bit notInMask side index
    rcases Nat.lt_or_ge bit 64 with inside | outOfRange
    · rw [switched.delivered side index bit inside]
      simp [isMarked, notInMask]
    · exact deliveries_eq_zero_of_le sends side index outOfRange
  · intro bit isFilteredFrame side index
    rcases Nat.lt_or_ge bit 64 with inside | outOfRange
    · rw [switched.delivered side index bit inside]
      simp [isMarked, destined, isFilteredFrame]
    · exact deliveries_eq_zero_of_le sends side index outOfRange
  · intro bit inMask notFiltered asks side index
    rw [switched.delivered side index bit (inRange inMask)]
    have floods : wantsFlood live (input.pkts bit) = true := by
      rw [sameTable] at asks
      unfold wantsFlood
      rcases asks with multicast | unknown
      · simp [multicast]
      · simp only [pgMacTablePtrGet] at unknown
        simp [unknown]
    by_cases linked : (brick.linkAt side index).isSome = true
    · simp [isMarked, linked, inMask, destined, notFiltered, floods, dense side index linked]
    · simp [linked]
  · intro bit port pointer inMask notFiltered unicast found isPort side index
    rw [switched.delivered side index bit (inRange inMask)]
    rw [sameTable] at found
    rw [sameSources] at isPort
    simp only [pgMacTablePtrGet] at found
    have floodsNot : wantsFlood live (input.pkts bit) = false := by
      simp [wantsFlood, unicast, found]
    have isKnown : knownAt live.table live.sources (input.pkts bit) side index = true ↔
          (side, index) = port := by
      unfold knownAt
      simp only [found, isPort]
      rcases port with ⟨portSide, portIndex⟩
      simp only [decide_eq_true_eq, Prod.mk.injEq, AddressSource.mk.injEq]
      exact ⟨fun same => ⟨same.2.symm, same.1.symm⟩, fun same => ⟨same.2.symm, same.1.symm⟩⟩
    by_cases here : (side, index) = port
    · have isLinked : (brick.linkAt side index).isSome = true :=
        entriesLinked _ (side, index) ((learnt.sound.learnt_of_knownAt learnt.alive).mp
            (isKnown.mpr here))
      simp [isMarked, isLinked, inMask, destined, notFiltered, floodsNot,
        isKnown.mpr here, here, dense side index isLinked]
    · have notKnown : knownAt live.table live.sources (input.pkts bit) side index =
            false := by
        rw [← Bool.not_eq_true, isKnown]
        exact here
      simp [isMarked, destined, floodsNot, notKnown, here]

theorem keptByAttach_masksClear :
    KeptByAttach (SwitchHolds (fun _ => MasksClear) : Brick ι → SwitchState → Prop) :=
  keptByAttach_switchHolds (fun _ _ _ _ _ _ clear _ => clear)

/-- The notification of a breaking link does not mark packets. -/
theorem MasksClear.switchUnlinkNotify (sound : state.Sound) (clear : MasksClear state) (side : Side)
    (index : Nat) : MasksClear (switchUnlinkNotify state side index) := by
  obtain ⟨_, sameMasks, _⟩ := switchUnlinkNotify_spec sound side index
  intro otherSide otherIndex
  rw [sameMasks]
  exact clear otherSide otherIndex

/-- Unlinking does not mark packets. -/
theorem keptByUnlink_masksClear : KeptByUnlink (switchOps ι) (SwitchHolds (fun _ => MasksClear)) :=
  keptByUnlink_switchHolds (fun _ _ side index sound clear =>
      clear.switchUnlinkNotify sound side index)
    (fun _ _ side index _ sound clear _ => clear.switchUnlinkNotify sound side index)

variable [DecidableEq ι] [Fintype ι] {others : BrickOps ι τ}

/-- In a run of orderly bursts, no packet stays marked. -/
theorem switchGraph_masksClear {graph : Graph ι (Node SwitchState τ)}
    (reachable : ((switchSystem others).guarded OrderlyBurst).Reachable graph) :
    SwitchGraph (fun _ => MasksClear) graph := by
  refine reachable.invariant ?_ ?_
  · intro start made
    have allMade : (switchSystem others).initial start := made
    exact switchGraph_initial (fun _ _ clear _ => clear) allMade
  · rintro before event after holds ⟨guard, step⟩
    cases event with
    | call call =>
      obtain ⟨outcome, executed⟩ := step
      exact holds.exec keptByAttach_masksClear keptByUnlink_masksClear executed
    | burst input =>
      obtain ⟨state, rounds, code, error, sends, stateAfter, isSwitch,
        linkedPort, returned, rfl⟩ := step
      obtain ⟨dense, entriesLinked, accepted, away⟩ := guard
      refine holds.update isSwitch ?_
      rintro counted ⟨multipole, sound, clear⟩
      refine ⟨multipole, (run_returned sound returned).1, ?_⟩
      rcases run_accepted multipole sound accepted away rounds with
        ⟨_, outOfRounds | ⟨left, isLeft, sameMasks⟩⟩ |
        ⟨live, _, _, sent, left, learnt, isLeft, switched⟩
      · rw [outOfRounds] at returned
        exact absurd returned (by simp)
      · rw [isLeft] at returned
        simp only [SwitchOutcome.returned.injEq] at returned
        intro side index
        rw [← returned.2.2.2, sameMasks]
        exact clear side index
      · rw [isLeft] at returned
        simp only [SwitchOutcome.returned.injEq] at returned
        rw [← returned.2.2.2]
        exact switched.masksClear multipole counted dense learnt clear
          ((entriesLinked state isSwitch).learnt linkedPort learnt)

/--
In every run of orderly bursts, an orderly burst on a linked port for which no
allocation fails is forwarded as its destinations ask.
-/
theorem switch_forwards {graph : Graph ι (Node SwitchState τ)}
    (reachable : ((switchSystem others).guarded OrderlyBurst).Reachable graph)
    {input : BurstInput ι} {state : SwitchState} (isSwitch : graph.priv input.target = .own state)
    (linkedPort : input.Linked (graph.brick input.target))
    (orderly : OrderlyBurst graph (.burst input)) (allocated : ∀ call, input.malloc call = true)
    (rounds : Nat) :
    ∃ sends after, input.run (graph.brick input.target) state (rounds + 1) =
          .returned 0 none sends after ∧
        Forwards (graph.brick input.target) input sends after := by
  obtain ⟨dense, entriesLinked, accepted, away⟩ := orderly
  have holds := switchGraph_masksClear reachable
  obtain ⟨multipole, sound, clear⟩ := holds.nodes input.target state isSwitch
  obtain ⟨live, _, _, sends, after, learnt, returned, switched⟩ :=
    run_allocated multipole sound accepted away allocated rounds
  exact ⟨sends, after, returned, switched.forwards learnt clear
      ((entriesLinked state isSwitch).learnt linkedPort learnt) dense
      (fun send sent => switchBurst_sends multipole returned sent)⟩

theorem meshForked_reachable :
    ((switchSystem (quietOps Bool)).guarded OrderlyBurst).Reachable
      meshForked :=
  .step (.call (.link (some false) (some true))) (.step (.call (.link (some true) (some false)))
      (.initial meshGraph_initial) ⟨trivial, none, rfl⟩) ⟨trivial, none, rfl⟩

/-- The switch of the forked mesh is in order for a burst. -/
theorem meshForked_orderly : OrderlyBurst meshForked (.burst meshBurst) := by
  refine ⟨?_, ?_, fun _ => Int.le_refl 0, fun _ _ => rfl⟩
  · apply linksDense_of_edges rfl
    intro side
    cases side <;> decide
  · intro state isSwitch key pointer learnt
    have isState : state = meshState (freshTable SourcePointer).table (fun _ _ => 0#64) :=
      (Node.own.inj isSwitch).symm
    rw [isState] at learnt
    exact absurd learnt (by
      simp [SwitchState.learnt, meshState, freshTable, MacTable.contents, pgMacTableIsSet, testBit])

/-- A multicast frame crosses the forked mesh. -/
theorem switch_forwards_forked :
    ∃ sends after, meshBurst.run (meshForked.brick false)
          (meshState (freshTable SourcePointer).table (fun _ _ => 0#64)) 1 =
        .returned 0 none sends after ∧
      deliveries sends .east 0 0 = 1 := by
  have isSwitch : meshForked.priv meshBurst.target = .own
          (meshState (freshTable SourcePointer).table (fun _ _ => 0#64)) :=
    rfl
  obtain ⟨sends, after, returned, forwards⟩ :=
    switch_forwards meshForked_reachable isSwitch rfl meshForked_orderly (fun _ => rfl) 0
  refine ⟨sends, after, returned, ?_⟩
  rw [forwards.flooded 0 rfl (by decide) (Or.inl (by decide)) .east 0]
  decide

/-- The calls that leave the mesh with a link above a freed slot. -/
def meshHoled : Graph Bool (Node SwitchState Unit) :=
  (((meshGraph.after meshOps (.link (some false) (some true))).after
        meshOps (.link (some false) (some true))).after
      meshOps (.link (some true) (some false))).after meshOps (.unlinkEdge (some false) (some true))

theorem meshHoled_reachable :
    ((switchSystem (quietOps Bool)).guarded OrderlyBurst).Reachable
      meshHoled :=
  .step (.call (.unlinkEdge (some false) (some true)))
    (.step (.call (.link (some true) (some false))) (.step (.call (.link (some false) (some true)))
        (.step (.call (.link (some false) (some true)))
          (.initial meshGraph_initial) ⟨trivial, none, rfl⟩) ⟨trivial, none, rfl⟩)
      ⟨trivial, none, rfl⟩) ⟨trivial, none, rfl⟩

/-- A multicast frame is marked for the freed slot of the holed mesh. -/
theorem meshHoled_run :
    ∃ state sends after, meshHoled.priv false = .own state ∧
        meshBurst.run (meshHoled.brick false) state 1 = .returned 0 none sends after ∧
        deliveries sends .east 1 0 = 0 ∧
        (after.masks .east 0).getLsbD 0 = true := by
  have isSwitch : meshHoled.priv false = .own (switchUnlinkNotify
            (meshState (freshTable SourcePointer).table (fun _ _ => 0#64)) .east 0) :=
    rfl
  obtain ⟨multipole, sound, clear⟩ :=
    (switchGraph_masksClear meshHoled_reachable).nodes false _ isSwitch
  have accepted : ∀ call, 0 ≤ meshBurst.neighbours.answers call := fun _ => Int.le_refl 0
  obtain ⟨live, _, _, sends, after, _, returned, switched⟩ :=
    run_allocated multipole sound accepted (fun _ _ => rfl) (fun _ => rfl) 0
  refine ⟨_, sends, after, isSwitch, returned, ?_, ?_⟩
  · rw [switched.delivered .east 1 0 (by decide)]
    rw [if_neg]
    rintro ⟨below, _⟩
    exact absurd below (by decide)
  · rw [switched.left .east 0 0 (by decide)]
    refine ⟨by decide, by decide, ?_⟩
    have multicast : wantsFlood live meshFrame = true := by
      have isMulticast : isMulticastEtherAddr meshFrame dAddr = true := by decide
      simp [wantsFlood, isMulticast]
    have notFiltered : isFiltered meshFrame = false := by decide
    have below : 0 < ((meshHoled.brick false).sides .east).nb := by decide
    simp [marked, meshBurst, destined, multicast, notFiltered, below]

/--
A multicast frame is not delivered on the linked port above a freed slot.
-/
theorem switch_misses_port_above_hole :
    ∃ (graph : Graph Bool (Node SwitchState Unit)) (state : SwitchState)
      (sends : List (Send Bool)) (after : SwitchState),
      (switchSystem (quietOps Bool)).Reachable graph ∧ graph.priv false = .own state ∧
        meshBurst.Linked (graph.brick false) ∧
        meshBurst.run (graph.brick false) state 1 = .returned 0 none sends after ∧
        isFiltered (meshBurst.pkts 0) = false ∧
        isMulticastEtherAddr (meshBurst.pkts 0) dAddr = true ∧
        meshBurst.pktsMask.getLsbD 0 = true ∧
        (graph.brick false).linkAt .east 1 = some (true, 1) ∧
        deliveries sends .east 1 0 = 0 := by
  obtain ⟨state, sends, after, isSwitch, returned, missed, _⟩ := meshHoled_run
  exact ⟨meshHoled, state, sends, after, meshHoled_reachable.of_guarded,
    isSwitch, rfl, returned, by decide, by decide, by decide, by decide, missed⟩

/--
In every run of orderly bursts, all masks of every switch are zero, and
whatever burst comes next forwards packets of its own mask only, if no
neighbour bursts back before it returns.
-/
theorem switch_masks_clear {graph : Graph ι (Node SwitchState τ)}
    (reachable : ((switchSystem others).guarded OrderlyBurst).Reachable graph)
    {brick : ι} {state : SwitchState} (isSwitch : graph.priv brick = .own state) :
    (∀ side index, state.masks side index = 0#64) ∧
      ∀ (input : BurstInput ι) rounds code error sends after,
        input.neighbours.KeepAway →
        input.run (graph.brick brick) state rounds = .returned code error sends after →
        ∀ send ∈ sends, send.mask &&& ~~~input.pktsMask = 0#64 := by
  obtain ⟨multipole, sound, clear⟩ := (switchGraph_masksClear reachable).nodes brick state isSwitch
  refine ⟨clear, ?_⟩
  intro input rounds code error sends after away returned send sent
  rw [BitScan.eq_zero_iff]
  intro bit
  cases carried : send.mask.getLsbD bit with
  | false => simp [carried]
  | true =>
    have own := run_sends_own_packets multipole sound clear away returned sent carried
    simp [own]

/-- The masks of the forked mesh are zero after a burst. -/
theorem switch_masks_clear_forked :
    ∃ (graph : Graph Bool (Node SwitchState Unit)) (state : SwitchState),
      ((switchSystem (quietOps Bool)).guarded OrderlyBurst).Reachable graph ∧
        graph.priv false = .own state ∧
        pgMacTablePtrGet state.table 2#64 = some (.west, 0) ∧
        ∀ side index, state.masks side index = 0#64 := by
  obtain ⟨code, sends, masks, returned⟩ : ∃ code sends masks, meshBurst.run (meshForked.brick false)
            (meshState (freshTable SourcePointer).table (fun _ _ => 0#64)) 1 =
          .returned code none sends (meshState (singleEntry 2#64 (Side.west, 0)).table masks) :=
    ⟨_, _, _, meshBurst_run (by decide) (by decide) (by decide) _⟩
  have reachable : ((switchSystem (quietOps Bool)).guarded OrderlyBurst).Reachable { meshForked with
          priv :=
            update meshForked.priv false (.own
                (meshState (singleEntry 2#64 (Side.west, 0)).table masks)) } :=
    .step (.burst meshBurst) meshForked_reachable
      ⟨meshForked_orderly, _, 1, code, none, sends, _, rfl, rfl, returned, rfl⟩
  exact ⟨_, _, reachable, rfl, singleEntry_found, (switch_masks_clear reachable (update_self ..)).1⟩

/-- A frame stays marked for a freed slot after a burst that returned 0. -/
theorem switch_leaves_mark_on_hole :
    ∃ (graph : Graph Bool (Node SwitchState Unit)) (state : SwitchState),
      (switchSystem (quietOps Bool)).Reachable graph ∧ graph.priv false = .own state ∧
        (state.masks .east 0).getLsbD 0 = true := by
  obtain ⟨state, sends, after, isSwitch, returned, _, isMarked⟩ := meshHoled_run
  have reachable : (switchSystem (quietOps Bool)).Reachable { meshHoled with
          priv := update meshHoled.priv false (.own after) } :=
    .step (.burst meshBurst) meshHoled_reachable.of_guarded
      ⟨state, 1, 0, none, sends, after, isSwitch, rfl, returned, rfl⟩
  exact ⟨_, after, reachable, rfl, isMarked⟩

end PacketGraph
