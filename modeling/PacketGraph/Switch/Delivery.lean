import PacketGraph.Switch.Burst

namespace PacketGraph

open BitMap BitScan BitVec List

/-!
# Which ports a burst reaches

With links that fill the first slots of each side, the ports up to `nb` are
exactly the linked ones.  A burst then delivers each packet on the ports its
destination asks for, and leaves no packet marked.
-/

variable {ι : Type} {brick : Brick ι}

/-- The linked slots of each side come before its first free slot. -/
def LinksDense (brick : Brick ι) : Prop :=
  ∀ side index, (brick.linkAt side index).isSome = true → index < (brick.sides side).nb

/-- Whether links are dense can be read off the stored edges. -/
theorem linksDense_of_edges (multipole : brick.type = .multipole)
    (below : ∀ side, ∀ index < (brick.sides side).edges.length, (brick.linkAt side index).isSome =
        true → index < (brick.sides side).nb) : LinksDense brick := by
  intro side index linked
  obtain ⟨edge, found, _⟩ := (linkAt_isSome_of_multipole multipole side index).mp linked
  obtain ⟨inside, _⟩ := List.getElem?_eq_some_iff.mp found
  exact below side index inside linked

variable {index : Nat}

/-- With dense links, every slot up to `nb` is linked. -/
theorem LinksDense.linked_of_lt (multipole : brick.type = .multipole)
    (counted : WellCounted brick) (dense : LinksDense brick) {side : Side}
    (below : index < (brick.sides side).nb) : (brick.linkAt side index).isSome = true := by
  exact counted.linked_of_lt multipole (dense side) below

/-- How often a packet is sent out of a port. -/
def deliveries (sends : List (Send ι)) (side : Side) (index bit : Nat) : Nat :=
  sends.countP (fun send => send.side = side && send.index = index && send.mask.getLsbD bit)

/-- Forwarding on distinct ports delivers each marked packet once. -/
theorem deliveries_filterMap (masks : Side → Nat → BitVec 64) {ports : List (Side × Nat)}
    (distinct : ports.Nodup) (side : Side) (index bit : Nat) :
    deliveries (ports.filterMap (sendOn brick masks)) side index bit = if (side, index) ∈ ports ∧
          (brick.linkAt side index).isSome = true ∧
          (masks side index).getLsbD bit = true then
        1
      else
        0 := by
  induction ports with
  | nil => simp [deliveries]
  | cons port rest ih =>
    obtain ⟨notLater, restDistinct⟩ := nodup_cons.mp distinct
    have later := ih restDistinct
    cases sent : sendOn brick masks port with
    | none =>
      rw [filterMap_cons_none sent, later]
      by_cases here : (side, index) = port
      · subst here
        rcases sendOn_eq_none sent with unlinked | isZero
        · simp only at unlinked
          simp [unlinked]
        · simp only at isZero
          simp [isZero]
      · simp [here]
    | some send =>
      obtain ⟨isSide, isIndex, isMask, throughLink, _⟩ := sendOn_eq_some sent
      rw [filterMap_cons_some sent]
      unfold deliveries at later ⊢
      rw [countP_cons, later]
      by_cases here : (side, index) = port
      · subst here
        simp only at isSide isIndex isMask
        rw [isSide, isIndex] at throughLink
        simp [notLater, isSide, isIndex, isMask, throughLink]
      · have elsewhere : ¬ (port.1 = side ∧ port.2 = index) :=
          fun same => here (Prod.ext same.1.symm same.2.symm)
        have notCounted : (decide (send.side = side) && decide (send.index = index) &&
              send.mask.getLsbD bit) = false := by
          rw [isSide, isIndex]
          simp only [Bool.and_eq_false_imp, Bool.and_eq_true, decide_eq_true_eq]
          intro same
          exact absurd same elsewhere
        simp [notCounted, here]

theorem mem_forwardOrder {output side : Side} :
    (side, index) ∈ forwardOrder brick output ↔ index < (brick.sides side).nb := by
  unfold forwardOrder
  cases output <;> cases side <;> simp [pgFlipSide]

/-- Forwarding serves every port once. -/
theorem forwardOrder_nodup (output : Side) : (forwardOrder brick output).Nodup := by
  unfold forwardOrder
  rw [nodup_append]
  refine ⟨?_, ?_, ?_⟩
  · exact nodup_range.map (fun lower upper same => (Prod.mk.inj same).2)
  · exact nodup_range.map (fun lower upper same => (Prod.mk.inj same).2)
  · intro first inFirst second inSecond same
    rw [mem_map] at inFirst inSecond
    obtain ⟨_, _, rfl⟩ := inFirst
    obtain ⟨_, _, rfl⟩ := inSecond
    exact pgFlipSide_ne output (Prod.mk.inj same).1.symm

/-- Does the destination of a packet ask for all ports? -/
def wantsFlood (state : SwitchState) (frame : Frame) : Bool :=
  isMulticastEtherAddr frame dAddr || (macTableGet state.table (macAt frame dAddr)).isNone

/-- Does a switch mark a packet for a port? -/
def destined (nb : Side → Nat) (state : SwitchState) (frame : Frame) (side : Side) (index : Nat)
    : Bool :=
  !isFiltered frame && if wantsFlood state frame then
      decide (index < nb side)
    else
      knownAt state.table state.sources frame side index

variable {before live : SwitchState} {fromSide : Side} {edgeIndex : Nat}
  {pktsMask filteredMask floodMask : BitVec 64}

/-- The packets marked for a port before forwarding. -/
theorem getLsbD_markPackets {pkts : Nat → Frame}
    (learnt : LearntBurst before fromSide edgeIndex pkts pktsMask live filteredMask floodMask)
    (nb : Side → Nat) (side : Side) (index : Nat) {bit : Nat} (inside : bit < 64) :
    (markPackets nb live pkts pktsMask filteredMask floodMask side index).getLsbD bit =
      ((before.masks side index).getLsbD bit ||
        (pktsMask.getLsbD bit && destined nb live (pkts bit) side index)) := by
  have isFilteredBit := learnt.filtered bit inside
  have isFloodedBit := learnt.flooded bit inside
  obtain ⟨marked, unknown⟩ :=
    switchFrom_spec live.table live.sources pkts
      (lowBits (pktsMask &&& ~~~filteredMask &&& ~~~floodMask))
      (flood nb live.masks floodMask) 0#64 inside
  unfold markPackets
  rw [getLsbD_flood, marked, unknown, getLsbD_flood, learnt.masks]
  simp only [mem_lowBits, getLsbD_and, getLsbD_not, inside,
    decide_true, Bool.true_and, isFilteredBit, isFloodedBit,
    getLsbD_zero, Bool.false_or, Bool.decide_eq_true]
  unfold destined wantsFlood
  cases pktsMask.getLsbD bit with
  | false => simp
  | true =>
    cases isFiltered (pkts bit) with
    | true => simp
    | false =>
      cases isMulticastEtherAddr (pkts bit) dAddr with
      | true => simp
      | false =>
        cases found : macTableGet live.table (macAt (pkts bit) dAddr) with
        | none => simp [knownAt, found]
        | some pointer => simp

/-- A packet known on a port has an entry that names the port. -/
theorem SwitchState.Sound.learnt_of_knownAt {state : SwitchState} (sound : state.Sound)
    (alive : state.isTableDead = false) {frame : Frame} {side : Side} :
    knownAt state.table state.sources frame side index = true ↔
      state.learnt (macKey (macAt frame dAddr)) = some (side, index) := by
  unfold knownAt SwitchState.learnt
  rw [macTableGet_eq_contents]
  cases found : state.table.contents (macKey (macAt frame dAddr)) with
  | none => simp [alive]
  | some pointer =>
    have written :=
      sound.written (macKey (macAt frame dAddr)) pointer
        (by simp [SwitchState.learnt, alive, found])
    rcases pointer with ⟨otherSide, otherIndex⟩
    simp only [alive, Bool.false_eq_true, ↓reduceIte, Option.some.injEq,
      Prod.mk.injEq, decide_eq_true_eq] at written ⊢
    rw [written]
    simp only [AddressSource.mk.injEq]
    exact And.comm

/-- Every entry of a table names a linked port. -/
def EntriesLinked (brick : Brick ι) (state : SwitchState) : Prop :=
  ∀ key pointer, state.learnt key = some pointer → (brick.linkAt pointer.1 pointer.2).isSome = true

/-- No packet is marked for any port. -/
def MasksClear (state : SwitchState) : Prop :=
  ∀ side index, state.masks side index = 0#64

/-- Is a packet marked for a port when forwarding starts? -/
def marked (brick : Brick ι) (before live : SwitchState) (pkts : Nat → Frame) (pktsMask : BitVec 64)
    (side : Side) (index bit : Nat) : Bool :=
  (before.masks side index).getLsbD bit || (pktsMask.getLsbD bit &&
      destined (fun side => (brick.sides side).nb) live (pkts bit) side index)

/-- What forwarding the packets of one burst sends and leaves. -/
structure SwitchedBurst (brick : Brick ι) (before live : SwitchState) (fromSide : Side)
    (edgeIndex : Nat) (pkts : Nat → Frame) (pktsMask : BitVec 64) (sends : List (Send ι))
    (after : SwitchState) : Prop where
  table : after = { live with masks := after.masks }
  delivered : ∀ side index bit, bit < 64 → deliveries sends side index bit =
        if index < (brick.sides side).nb ∧ (brick.linkAt side index).isSome = true ∧
            (side, index) ≠ (fromSide, edgeIndex) ∧
            marked brick before live pkts pktsMask side index bit = true then 1 else 0
  left : ∀ side index bit, bit < 64 → ((after.masks side index).getLsbD bit = true ↔
        ¬ (index < (brick.sides side).nb ∧ (brick.linkAt side index).isSome = true) ∧
          (side, index) ≠ (fromSide, edgeIndex) ∧
          marked brick before live pkts pktsMask side index bit = true)

/-- The packets a burst has marked for a port once its source is left out. -/
theorem getLsbD_markPackets_source {pkts : Nat → Frame}
    (learnt : LearntBurst before fromSide edgeIndex pkts pktsMask live filteredMask floodMask)
    (side : Side) (index : Nat) {bit : Nat} (inside : bit < 64) :
    (setMask
        (markPackets (fun side => (brick.sides side).nb) live pkts pktsMask filteredMask floodMask)
        fromSide edgeIndex 0#64 side index).getLsbD bit = true ↔
      (side, index) ≠ (fromSide, edgeIndex) ∧
        marked brick before live pkts pktsMask side index bit = true := by
  unfold setMask
  by_cases isSource : side = fromSide ∧ index = edgeIndex
  · simp [isSource]
  · have notSource : (side, index) ≠ (fromSide, edgeIndex) :=
      fun same => isSource (Prod.mk.inj same)
    simp only [isSource, ↓reduceIte, notSource, ne_eq, not_false_eq_true, true_and]
    rw [getLsbD_markPackets learnt _ side index inside]
    rfl

/-- A burst whose neighbours all accept what they are sent and never burst back. -/
theorem switchPackets_spec (multipole : brick.type = .multipole) {pkts : Nat → Frame}
    (learnt : LearntBurst before fromSide edgeIndex pkts pktsMask live filteredMask floodMask)
    {neighbours : Neighbours} (accepted : ∀ call, 0 ≤ neighbours.answers call)
    (away : neighbours.KeepAway) :
    ∃ sends after, switchPackets brick live fromSide edgeIndex pkts pktsMask neighbours
          filteredMask floodMask =
        .returned 0 none sends after ∧
      SwitchedBurst brick before live fromSide edgeIndex pkts pktsMask sends after := by
  simp only [switchPackets, forwardBursts, learnt.source,
    forwardPorts_succeeds multipole (forwardOrder_nodup _) accepted away]
  refine ⟨_, _, rfl, rfl, ?_, ?_⟩
  · intro side index bit inside
    simp only [deliveries_filterMap _ (forwardOrder_nodup _),
      mem_forwardOrder, getLsbD_markPackets_source learnt side index inside]
  · intro side index bit inside
    simp only [mem_forwardOrder]
    split
    · rename_i drained
      simp [drained]
    · rename_i kept
      simp only [getLsbD_markPackets_source learnt side index inside, kept,
        not_false_eq_true, true_and]

/-- With dense links and linked entries, a burst leaves no new mark. -/
theorem SwitchedBurst.masksClear (multipole : brick.type = .multipole) (counted : WellCounted brick)
    (dense : LinksDense brick) {after : SwitchState} {pkts : Nat → Frame} {sends : List (Send ι)}
    (switched : SwitchedBurst brick before live fromSide edgeIndex pkts pktsMask sends after)
    (learnt : LearntBurst before fromSide edgeIndex pkts pktsMask live filteredMask floodMask)
    (clear : MasksClear before) (entriesLinked : EntriesLinked brick live) : MasksClear after := by
  intro side index
  rw [BitScan.eq_zero_iff]
  intro bit
  rcases Nat.lt_or_ge bit 64 with inside | outOfRange
  · rw [← Bool.not_eq_true, switched.left side index bit inside]
    rintro ⟨notDrained, _, isMarked⟩
    have notBelow : ¬ index < (brick.sides side).nb :=
      fun below => notDrained ⟨below, dense.linked_of_lt multipole counted below⟩
    simp only [marked, clear side index, getLsbD_zero,
      Bool.false_or, Bool.and_eq_true, destined] at isMarked
    obtain ⟨_, _, isDestined⟩ := isMarked
    split at isDestined
    · exact notBelow (by simpa using isDestined)
    · have linked := entriesLinked _ _ ((learnt.sound.learnt_of_knownAt learnt.alive).mp isDestined)
      exact notBelow (dense side index linked)
  · exact getLsbD_of_ge _ _ outOfRange

end PacketGraph
