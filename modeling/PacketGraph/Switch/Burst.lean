import PacketGraph.Switch.Basic
import PacketGraph.MacTable.Foreach
import PacketGraph.Brick.Storage

namespace PacketGraph

open BitMap BitScan List

/-!
# What a burst into a switch does

Each loop of `switch_burst` is described by the bits it leaves: the learning
loop by the entries of the table and the packets it sets apart, the lookup
loop by the packets marked for each port, and forwarding by the list of bursts
it sends and the marks that stay.
-/

theorem getLsbD_or_bit (mask : BitVec 64) (i bit : Nat) :
    (mask ||| (1#64 <<< i)).getLsbD bit =
      (mask.getLsbD bit || (decide (bit < 64) && decide (bit = i))) := by
  rw [BitVec.getLsbD_or, getLsbD_one_shiftLeft]

/-- The bit of a packet when a condition holds, and no bit otherwise. -/
def bitIf (condition : Bool) (i : Nat) : BitVec 64 :=
  if condition then 1#64 <<< i else 0#64

variable {bit : Nat}

/-- Marking one more packet under a condition. -/
theorem getLsbD_or_bitIf (mask : BitVec 64) (condition : Bool) (i : Nat) (inside : bit < 64) :
    (mask ||| bitIf condition i).getLsbD bit =
      (mask.getLsbD bit || (decide (bit = i) && condition)) := by
  unfold bitIf
  cases condition with
  | true =>
    simp only [↓reduceIte, getLsbD_or_bit, inside, decide_true, Bool.true_and, Bool.and_true]
  | false => simp

variable {table : MacTable SourcePointer}

/-- One round of the learning loop whose packet is learnt. -/
theorem learnFrom_cons_stored {source : SourcePointer} {pkts : Nat → Frame} {i : Nat}
    {malloc : Malloc} {after : MacTable SourcePointer}
    (stored : (macTableSet malloc table (macAt (pkts i) sAddr) source).1 = .stored after)
    (rest : List Nat) (filteredMask floodMask : BitVec 64) :
    learnFrom source pkts (i :: rest) malloc table filteredMask floodMask =
      learnFrom source pkts rest (macTableSet malloc table (macAt (pkts i) sAddr) source).2 after
        (filteredMask ||| bitIf (isFiltered (pkts i)) i)
        (floodMask ||| bitIf (!isFiltered (pkts i) && isMulticastEtherAddr (pkts i) dAddr) i) := by
  rcases answer : macTableSet malloc table (macAt (pkts i) sAddr) source with ⟨outcome, mallocAfter⟩
  rw [answer] at stored
  simp only at stored
  subst stored
  simp only [learnFrom, pgMacTablePtrSet, answer]
  by_cases isFilteredHere : isFiltered (pkts i) = true
  · simp [isFilteredHere, bitIf]
  · by_cases isMulticast : isMulticastEtherAddr (pkts i) dAddr = true
    · simp [isFilteredHere, isMulticast, bitIf]
    · simp [isFilteredHere, isMulticast, bitIf]

/-- What the learning loop leaves when no allocation fails. -/
structure Learned (source : SourcePointer) (pkts : Nat → Frame) (indices : List Nat)
    (before : MacTable SourcePointer) (filteredBefore floodBefore : BitVec 64)
    (table : MacTable SourcePointer) (filteredMask floodMask : BitVec 64) : Prop where
  wellFormed : table.WellFormed
  complete : table.Complete
  contents : ∀ key, table.contents key = if ∃ i ∈ indices, macKey (macAt (pkts i) sAddr) = key then
          some source
        else
          before.contents key
  filtered : ∀ bit < 64, filteredMask.getLsbD bit = (filteredBefore.getLsbD bit ||
          (decide (bit ∈ indices) && isFiltered (pkts bit)))
  flooded : ∀ bit < 64, floodMask.getLsbD bit = (floodBefore.getLsbD bit ||
          (decide (bit ∈ indices) && !isFiltered (pkts bit) &&
            isMulticastEtherAddr (pkts bit) dAddr))

/-- The learning loop learns all its packets, or an allocation fails. -/
theorem learnFrom_spec (source : SourcePointer) (pkts : Nat → Frame) (indices : List Nat)
    (malloc : Malloc) (wellFormed : table.WellFormed) (complete : table.Complete)
    (filteredMask floodMask : BitVec 64) :
    (∃ after filteredAfter floodAfter,
      learnFrom source pkts indices malloc table filteredMask floodMask =
          .learned after filteredAfter floodAfter ∧
        Learned source pkts indices table filteredMask floodMask after filteredAfter floodAfter) ∨
      ((∃ call, malloc call = false) ∧ ∃ mallocAfter,
          learnFrom source pkts indices malloc table filteredMask floodMask =
            .raised mallocAfter) := by
  induction indices generalizing malloc table filteredMask floodMask with
  | nil =>
    exact Or.inl ⟨table, filteredMask, floodMask, rfl,
      wellFormed, complete, by simp, by simp, by simp⟩
  | cons i rest ih =>
    rcases macTableSet_complete wellFormed complete malloc (macAt (pkts i) sAddr) source with
      ⟨between, stored, betweenComplete⟩ | ⟨failing, after, raised⟩
    · obtain ⟨betweenFormed, changed⟩ := macTableSet_eq_stored wellFormed stored
      obtain ⟨calls, isAfter⟩ := macTableSet_malloc malloc table (macAt (pkts i) sAddr) source
      rw [learnFrom_cons_stored stored]
      rcases ih (macTableSet malloc table (macAt (pkts i) sAddr) source).2
          betweenFormed betweenComplete (filteredMask ||| bitIf (isFiltered (pkts i)) i)
          (floodMask ||| bitIf (!isFiltered (pkts i) && isMulticastEtherAddr (pkts i) dAddr) i) with
        ⟨after, filteredAfter, floodAfter, finished, learned⟩ |
        ⟨⟨call, failed⟩, mallocAfter, raised⟩
      · refine Or.inl ⟨after, filteredAfter, floodAfter, finished,
          learned.wellFormed, learned.complete, ?_, ?_, ?_⟩
        · intro key
          rw [learned.contents, changed]
          simp only [mem_cons, exists_eq_or_imp]
          by_cases later : ∃ other ∈ rest, macKey (macAt (pkts other) sAddr) = key
          · simp [later]
          · by_cases here : macKey (macAt (pkts i) sAddr) = key
            · simp [here]
            · simp [later, here, Ne.symm here]
        · intro bit inside
          rw [learned.filtered bit inside, getLsbD_or_bitIf _ _ _ inside]
          by_cases here : bit = i
          · subst here
            cases isFiltered (pkts bit) <;> simp
          · simp [here]
        · intro bit inside
          rw [learned.flooded bit inside, getLsbD_or_bitIf _ _ _ inside]
          by_cases here : bit = i
          · subst here
            cases isFiltered (pkts bit) <;> cases isMulticastEtherAddr (pkts bit) dAddr <;> simp
          · simp [here]
      · rw [isAfter] at failed
        exact Or.inr ⟨⟨calls + call, failed⟩, mallocAfter, raised⟩
    · right
      refine ⟨failing, (macTableSet malloc table (macAt (pkts i) sAddr) source).2, ?_⟩
      rcases answer : macTableSet malloc table (macAt (pkts i) sAddr) source
        with ⟨outcome, mallocAfter⟩
      rw [answer] at raised
      simp only at raised
      subst raised
      simp only [learnFrom, pgMacTablePtrSet, answer]

/-- Is the destination of a packet learnt on the given port? -/
def knownAt (table : MacTable SourcePointer) (sources : Side → Nat → AddressSource) (frame : Frame)
    (side : Side) (index : Nat) : Bool :=
  match macTableGet table (macAt frame dAddr) with
  | some pointer =>
    decide (sources pointer.1 pointer.2 = { edgeIndex := index, fromSide := side })
  | none => false

/-- Overwriting the mask of a port by one with one more packet. -/
theorem getLsbD_setMask_or (masks : Side → Nat → BitVec 64) (entry : AddressSource) (i : Nat)
    (side : Side) (index : Nat) (inside : bit < 64) :
    (setMask masks entry.fromSide entry.edgeIndex
        (masks entry.fromSide entry.edgeIndex ||| (1#64 <<< i))
        side index).getLsbD bit =
      ((masks side index).getLsbD bit ||
        (decide (bit = i) && decide (entry = { edgeIndex := index, fromSide := side }))) := by
  rcases entry with ⟨edgeIndex, fromSide⟩
  unfold setMask
  by_cases here : side = fromSide ∧ index = edgeIndex
  · obtain ⟨rfl, rfl⟩ := here
    simp only [and_self, ↓reduceIte, getLsbD_or_bit, inside, decide_true,
      Bool.true_and, Bool.and_true]
  · have other : ¬ (AddressSource.mk edgeIndex fromSide =
          { edgeIndex := index, fromSide := side }) := by
      intro same
      apply here
      simp only [AddressSource.mk.injEq] at same
      exact ⟨same.2.symm, same.1.symm⟩
    simp [here, other]

/-- The packets the lookup loop marks for a port, and those it floods. -/
theorem switchFrom_spec (table : MacTable SourcePointer) (sources : Side → Nat → AddressSource)
    (pkts : Nat → Frame) (indices : List Nat) (masks : Side → Nat → BitVec 64)
    (floodMask : BitVec 64) (inside : bit < 64) :
    (∀ side index,
      ((switchFrom table sources pkts indices masks floodMask).1 side index).getLsbD bit =
        ((masks side index).getLsbD bit ||
          (decide (bit ∈ indices) && knownAt table sources (pkts bit) side index))) ∧
      (switchFrom table sources pkts indices masks floodMask).2.getLsbD bit =
        (floodMask.getLsbD bit || (decide (bit ∈ indices) &&
            (macTableGet table (macAt (pkts bit) dAddr)).isNone)) := by
  induction indices generalizing masks floodMask with
  | nil => simp [switchFrom]
  | cons i rest ih =>
    simp only [switchFrom, pgMacTablePtrGet]
    cases found : macTableGet table (macAt (pkts i) dAddr) with
    | some pointer =>
      simp only
      obtain ⟨marked, flooded⟩ :=
        ih (setMask masks (sources pointer.1 pointer.2).fromSide
            (sources pointer.1 pointer.2).edgeIndex (masks (sources pointer.1 pointer.2).fromSide
              (sources pointer.1 pointer.2).edgeIndex ||| (1#64 <<< i))) floodMask
      refine ⟨fun side index => ?_, ?_⟩
      · rw [marked, getLsbD_setMask_or _ _ _ _ _ inside]
        by_cases here : bit = i
        · subst here
          have known : knownAt table sources (pkts bit) side index = decide
                  (sources pointer.1 pointer.2 = { edgeIndex := index, fromSide := side }) := by
            simp [knownAt, found]
          rw [known]
          cases decide (sources pointer.1 pointer.2 =
              { edgeIndex := index, fromSide := side }) <;> simp
        · simp [here]
      · rw [flooded]
        by_cases here : bit = i
        · subst here
          simp [found]
        · simp [here]
    | none =>
      simp only
      obtain ⟨marked, flooded⟩ := ih masks (floodMask ||| (1#64 <<< i))
      refine ⟨fun side index => ?_, ?_⟩
      · rw [marked]
        by_cases here : bit = i
        · subst here
          simp [knownAt, found]
        · simp [here]
      · rw [flooded, getLsbD_or_bit]
        by_cases here : bit = i
        · subst here
          simp [found, inside]
        · simp [here]

/-- Flooding marks the packets of its mask for the ports up to `nb`. -/
theorem getLsbD_flood (nb : Side → Nat) (masks : Side → Nat → BitVec 64) (mask : BitVec 64)
    (side : Side) (index bit : Nat) :
    (flood nb masks mask side index).getLsbD bit = ((masks side index).getLsbD bit ||
        (decide (index < nb side) && mask.getLsbD bit)) := by
  unfold flood
  by_cases isZero : mask = 0#64
  · simp [isZero]
  · by_cases inside : index < nb side
    · simp [isZero, inside]
    · simp [isZero, inside]

section Forwarding

variable {ι : Type} {brick : Brick ι}

/-- The burst that forwarding on a port makes, if any. -/
def sendOn (brick : Brick ι) (masks : Side → Nat → BitVec 64) (port : Side × Nat)
    : Option (Send ι) :=
  match brick.linkAt port.1 port.2 with
  | none => none
  | some (target, pairIndex) =>
    if masks port.1 port.2 = 0#64 then
      none
    else
      some
        { side := port.1
          index := port.2
          target := target
          fromSide := pgFlipSide port.1
          edgeIndex := pairIndex
          mask := masks port.1 port.2 }

variable {send : Send ι}

variable {masks : Side → Nat → BitVec 64} {port : Side × Nat}

/-- The burst of a port leaves that port with its marked packets. -/
theorem sendOn_eq_some (sent : sendOn brick masks port = some send) :
    send.side = port.1 ∧ send.index = port.2 ∧ send.mask = masks port.1 port.2 ∧
      brick.linkAt send.side send.index = some (send.target, send.edgeIndex) ∧
      send.fromSide = pgFlipSide send.side := by
  unfold sendOn at sent
  split at sent
  · exact absurd sent (by simp)
  · rename_i target pairIndex linked
    split at sent
    · exact absurd sent (by simp)
    · simp only [Option.some.injEq] at sent
      subst sent
      exact ⟨rfl, rfl, rfl, linked, rfl⟩

/-- A port that makes no burst is unlinked or has no packet marked. -/
theorem sendOn_eq_none (silent : sendOn brick masks port = none) :
    brick.linkAt port.1 port.2 = none ∨ masks port.1 port.2 = 0#64 := by
  unfold sendOn at silent
  split at silent
  · rename_i unlinked
    exact Or.inl unlinked
  · split at silent
    · rename_i isZero
      exact Or.inr isZero
    · exact absurd silent (by simp)

/-- Neighbours that never burst back do not later. -/
theorem Neighbours.KeepAway.after {neighbours : Neighbours} (away : neighbours.KeepAway)
    (calls : Nat) : (neighbours.after calls).KeepAway :=
  fun call => away (calls + call)

/-- Forwarding goes port by port, stopping at the first failure. -/
theorem forwardPorts_cons (multipole : brick.type = .multipole) (masks : Side → Nat → BitVec 64)
    (port : Side × Nat) (rest : List (Side × Nat)) (neighbours : Neighbours) :
    forwardPorts brick (port :: rest) neighbours masks = match sendOn brick masks port with
      | none => forwardPorts brick rest neighbours masks
      | some send =>
        let left := neighbours.marks 0 (setMask masks port.1 port.2 0#64)
        if neighbours.answers 0 < 0 then
          { code := -1, masks := left, sends := [send] }
        else
          let later := forwardPorts brick rest (neighbours.after 1) left
          { later with sends := send :: later.sends } := by
  rcases port with ⟨side, index⟩
  rw [forwardPorts]
  simp only [sendOn, linkAt_of_multipole multipole]
  rcases (brick.sides side).edges[index]? with _ | ⟨_ | target, pairIndex⟩
  · rfl
  · rfl
  · by_cases isZero : masks side index = 0#64
    · simp [isZero]
    · simp [isZero]

/-- A port whose own mask is overwritten sends nothing. -/
theorem sendOn_setMask_of_ne (masks : Side → Nat → BitVec 64) (port other : Side × Nat)
    (mask : BitVec 64) (different : other ≠ port) :
    sendOn brick (setMask masks port.1 port.2 mask) other = sendOn brick masks other := by
  have elsewhere : ¬ (other.1 = port.1 ∧ other.2 = port.2) :=
    fun same => different (Prod.ext same.1 same.2)
  simp [sendOn, setMask, elsewhere]

section

variable (multipole : brick.type = .multipole)

include multipole

/-- Forwarding when every neighbour accepts its burst and none bursts back. -/
theorem forwardPorts_succeeds {ports : List (Side × Nat)} (distinct : ports.Nodup)
    {neighbours : Neighbours} (accepted : ∀ call, 0 ≤ neighbours.answers call)
    (away : neighbours.KeepAway) (masks : Side → Nat → BitVec 64) :
    forwardPorts brick ports neighbours masks =
      { code := 0
        masks := fun side index =>
          if (side, index) ∈ ports ∧ (brick.linkAt side index).isSome = true then
            0#64
          else
            masks side index
        sends := ports.filterMap (sendOn brick masks) } := by
  induction ports generalizing neighbours masks with
  | nil => simp [forwardPorts]
  | cons port rest ih =>
    obtain ⟨notLater, restDistinct⟩ := nodup_cons.mp distinct
    rw [forwardPorts_cons multipole]
    cases sent : sendOn brick masks port with
    | none =>
      simp only
      rw [ih restDistinct accepted away, filterMap_cons_none sent]
      simp only [Forwarding.mk.injEq, and_true, true_and]
      funext side index
      by_cases here : (side, index) = port
      · subst here
        cases linked : brick.linkAt side index with
        | none => simp
        | some link =>
          have isZero : masks side index = 0#64 := by
            by_contra nonzero
            simp [sendOn, linked, nonzero] at sent
          simp [notLater, isZero]
      · simp [here]
    | some send =>
      have notFailed : ¬ neighbours.answers 0 < 0 := by
        have first := accepted 0
        omega
      simp only [notFailed, ↓reduceIte, away 0]
      have sameLater : rest.filterMap (sendOn brick (setMask masks port.1 port.2 0#64)) =
            rest.filterMap (sendOn brick masks) := by
        apply filterMap_congr
        intro other member
        exact sendOn_setMask_of_ne masks port other 0#64 (fun same => notLater (same ▸ member))
      have laterAccepted : ∀ call, 0 ≤ (neighbours.after 1).answers call :=
        fun call => accepted (1 + call)
      rw [ih restDistinct laterAccepted (away.after 1), filterMap_cons_some sent, sameLater]
      simp only [Forwarding.mk.injEq, and_true, true_and]
      funext side index
      by_cases here : (side, index) = port
      · subst here
        cases linked : brick.linkAt side index with
        | none => simp [sendOn, linked] at sent
        | some link => simp [setMask]
      · have elsewhere : ¬ (side = port.1 ∧ index = port.2) :=
          fun same => here (Prod.ext same.1 same.2)
        simp [here, setMask, elsewhere]

section

variable (ports : List (Side × Nat)) (neighbours : Neighbours) (masks : Side → Nat → BitVec 64)
  (sent : send ∈ (forwardPorts brick ports neighbours masks).sends)

include sent

/-- Every burst sent goes through the link of the port it leaves. -/
theorem forwardPorts_through_links :
    brick.linkAt send.side send.index = some (send.target, send.edgeIndex) ∧
      send.fromSide = pgFlipSide send.side := by
  induction ports generalizing neighbours masks with
  | nil => simp [forwardPorts] at sent
  | cons port rest ih =>
    rw [forwardPorts_cons multipole] at sent
    cases isFirst : sendOn brick masks port with
    | none =>
      simp only [isFirst] at sent
      exact ih _ _ sent
    | some first =>
      obtain ⟨_, _, _, throughLink⟩ := sendOn_eq_some isFirst
      simp only [isFirst] at sent
      split at sent
      · rw [mem_singleton.mp sent]
        exact throughLink
      · rcases mem_cons.mp sent with same | later
        · rw [same]
          exact throughLink
        · exact ih _ _ later

/-- If no neighbour bursts back, no burst carries a packet not marked for its port. -/
theorem forwardPorts_marked (away : neighbours.KeepAway) {bit : Nat}
    (carried : send.mask.getLsbD bit = true) : (masks send.side send.index).getLsbD bit = true := by
  induction ports generalizing neighbours masks with
  | nil => simp [forwardPorts] at sent
  | cons port rest ih =>
    rw [forwardPorts_cons multipole] at sent
    cases isFirst : sendOn brick masks port with
    | none =>
      simp only [isFirst] at sent
      exact ih _ _ sent away
    | some first =>
      obtain ⟨isSide, isIndex, isMask, _, _⟩ := sendOn_eq_some isFirst
      have firstMarked : send = first → (masks send.side send.index).getLsbD bit = true := by
        intro same
        rw [same] at carried ⊢
        rw [isSide, isIndex, ← isMask]
        exact carried
      simp only [isFirst] at sent
      split at sent
      · exact firstMarked (mem_singleton.mp sent)
      · rcases mem_cons.mp sent with same | later
        · exact firstMarked same
        · have marked := ih _ _ later (away.after 1)
          rw [away] at marked
          unfold setMask at marked
          split at marked
          · exact absurd marked (by simp)
          · exact marked

end

end

end Forwarding

/-- The port on which a switch with a live table learnt a key. -/
def SwitchState.learnt (state : SwitchState) (key : MacKey) : Option SourcePointer :=
  if state.isTableDead then none else state.table.contents key

/-- A live table is usable and points to sources that name their own port. -/
structure SwitchState.Sound (state : SwitchState) : Prop where
  wellFormed : state.isTableDead = false → state.table.WellFormed
  complete : state.isTableDead = false → state.table.Complete
  written : ∀ key pointer, state.learnt key = some pointer → state.sources pointer.1 pointer.2 =
        { edgeIndex := pointer.2, fromSide := pointer.1 }

/-- A live switch that has learnt the packets of a burst. -/
structure LearntBurst (before : SwitchState) (fromSide : Side) (edgeIndex : Nat)
    (pkts : Nat → Frame) (pktsMask : BitVec 64) (live : SwitchState)
    (filteredMask floodMask : BitVec 64) : Prop where
  sound : live.Sound
  alive : live.isTableDead = false
  masks : live.masks = before.masks
  output : live.output = before.output
  source : live.sources fromSide edgeIndex = { edgeIndex := edgeIndex, fromSide := fromSide }
  learnt : ∀ key pointer, live.learnt key = some pointer →
      pointer = (fromSide, edgeIndex) ∨ before.learnt key = some pointer
  sourceLearnt : ∀ bit, pktsMask.getLsbD bit = true →
      live.learnt (macKey (macAt (pkts bit) sAddr)) = some (fromSide, edgeIndex)
  filtered : ∀ bit < 64, filteredMask.getLsbD bit = (pktsMask.getLsbD bit && isFiltered (pkts bit))
  flooded : ∀ bit < 64, floodMask.getLsbD bit = (pktsMask.getLsbD bit && !isFiltered (pkts bit) &&
          isMulticastEtherAddr (pkts bit) dAddr)

section Burst

variable {ι : Type} {brick : Brick ι} {fromSide : Side} {edgeIndex : Nat}
  {pkts : Nat → Frame} {pktsMask : BitVec 64} {state : SwitchState}

/-- The table a burst starts from, unless it cannot be made. -/
theorem startTable_cases (sound : state.Sound) (malloc : Malloc) :
    (∃ table mallocAfter, (if state.isTableDead then
          pgMacTableInit SourcePointer malloc
        else
          (some state.table, malloc)) = (some table, mallocAfter) ∧
        table.WellFormed ∧ table.Complete ∧
        (∀ key, table.contents key = state.learnt key) ∧
        ∃ calls, mallocAfter = malloc.after calls) ∨
      (state.isTableDead = true ∧ malloc 0 = false ∧ ∃ mallocAfter, (if state.isTableDead then
              pgMacTableInit SourcePointer malloc
            else
              (some state.table, malloc)) = (none, mallocAfter)) := by
  cases dead : state.isTableDead with
  | false =>
    refine Or.inl ⟨state.table, malloc, by simp, sound.wellFormed dead,
      sound.complete dead, fun key => by simp [SwitchState.learnt, dead], 0, ?_⟩
    funext call
    simp [Malloc.after]
  | true =>
    cases answer : malloc 0 with
    | false => exact Or.inr ⟨rfl, rfl, malloc.after 1, by simp [pgMacTableInit, answer]⟩
    | true =>
      have started : (pgMacTableInit SourcePointer malloc).1 =
            some { mask := fun _ => 0#64, subs := fun _ => none } := by
        simp [pgMacTableInit, answer]
      obtain ⟨wellFormed, empty⟩ := pgMacTableInit_eq_some started
      refine Or.inl ⟨_, malloc.after 1, by simp only [↓reduceIte, pgMacTableInit, answer],
        wellFormed, pgMacTableInit_complete started, fun key => ?_, 1, rfl⟩
      rw [empty]
      simp [SwitchState.learnt, dead]

variable {malloc : Malloc}

/-- One round of a burst, once its table is known. -/
theorem switchBurst_started {mallocAfter : Malloc} {table : MacTable SourcePointer} (started :
      (if state.isTableDead then pgMacTableInit SourcePointer malloc else
          (some state.table, malloc)) = (some table, mallocAfter)) (neighbours : Neighbours)
    (rounds : Nat) :
    switchBurst brick fromSide edgeIndex pkts pktsMask neighbours (rounds + 1) malloc state = match
        learnFrom (fromSide, edgeIndex) pkts (lowBits pktsMask) mallocAfter table 0#64 0#64
      with
      | .fault => .fault
      | .raised malloc =>
        switchBurst brick fromSide edgeIndex pkts pktsMask neighbours rounds malloc
          { startLearning state table fromSide edgeIndex with isTableDead := true }
      | .learned table' filteredMask floodMask =>
        switchPackets brick { startLearning state table fromSide edgeIndex with table := table' }
          fromSide edgeIndex pkts pktsMask neighbours
          filteredMask floodMask := by
  rw [switchBurst]
  cases learnt : learnFrom (fromSide, edgeIndex) pkts (lowBits pktsMask) mallocAfter
        table 0#64 0#64 <;> simp only [started, learnt]

/-- A switch whose table is dead is sound. -/
theorem SwitchState.sound_of_dead (dead : state.isTableDead = true) : state.Sound := by
  refine ⟨?_, ?_, ?_⟩
  · intro alive
    simp [dead] at alive
  · intro alive
    simp [dead] at alive
  · intro key pointer learnt
    simp [SwitchState.learnt, dead] at learnt

/-- A switch that has learnt a burst in a table made or kept for it. -/
theorem learntBurst_of_learned (sound : state.Sound) {start after : MacTable SourcePointer}
    (sameContents : ∀ key, start.contents key = state.learnt key)
    {filteredMask floodMask : BitVec 64}
    (learned : Learned (fromSide, edgeIndex) pkts (lowBits pktsMask) start 0#64 0#64 after
        filteredMask floodMask) :
    LearntBurst state fromSide edgeIndex pkts pktsMask
      { startLearning state start fromSide edgeIndex with table := after }
      filteredMask floodMask := by
  have entries : ∀ key pointer, after.contents key = some pointer →
        pointer = (fromSide, edgeIndex) ∨ state.learnt key = some pointer := by
    intro key pointer found
    rw [learned.contents] at found
    split at found
    · exact Or.inl (Option.some.inj found).symm
    · rw [sameContents] at found
      exact Or.inr found
  refine ⟨⟨fun _ => learned.wellFormed, fun _ => learned.complete, ?_⟩,
    rfl, rfl, rfl, by simp [startLearning], entries, ?_, ?_, ?_⟩
  · intro key pointer found
    rcases entries key pointer found with rfl | before
    · simp [startLearning]
    · simp only [startLearning]
      split
      · rename_i here
        rw [here.1, here.2]
      · exact sound.written key pointer before
  · intro bit inMask
    have member : ∃ i ∈ lowBits pktsMask, macKey (macAt (pkts i) sAddr) =
            macKey (macAt (pkts bit) sAddr) :=
      ⟨bit, mem_lowBits.mpr inMask, rfl⟩
    simp only [SwitchState.learnt, startLearning, Bool.false_eq_true, ↓reduceIte]
    rw [learned.contents, if_pos member]
  · intro bit inside
    rw [learned.filtered bit inside]
    simp
  · intro bit inside
    rw [learned.flooded bit inside]
    simp

/-- How a burst into a sound switch ends. -/
theorem switchBurst_cases (neighbours : Neighbours) (rounds : Nat) (malloc : Malloc)
    (sound : state.Sound) :
    ((∃ call, malloc call = false) ∨ rounds = 0) ∧
        (switchBurst brick fromSide edgeIndex pkts pktsMask neighbours rounds malloc state =
            .outOfRounds ∨
          ∃ after,
            switchBurst brick fromSide edgeIndex pkts pktsMask neighbours rounds malloc state =
              .returned (-1) (some (macTableNoMem brick)) [] after ∧
            after.isTableDead = true ∧
            after.masks = state.masks ∧ after.output = state.output) ∨
      ∃ live filteredMask floodMask, LearntBurst state fromSide edgeIndex pkts pktsMask
            live filteredMask floodMask ∧
          switchBurst brick fromSide edgeIndex pkts pktsMask neighbours rounds malloc state =
            switchPackets brick live fromSide edgeIndex pkts pktsMask neighbours
              filteredMask floodMask := by
  induction rounds generalizing malloc state with
  | zero => exact Or.inl ⟨Or.inr rfl, Or.inl rfl⟩
  | succ rounds ih =>
    rcases startTable_cases sound malloc with
      ⟨table, mallocAfter, started, wellFormed, complete, sameContents, calls, isAfter⟩ |
      ⟨dead, failed, mallocAfter, started⟩
    · rw [switchBurst_started started]
      rcases learnFrom_spec (fromSide, edgeIndex) pkts (lowBits pktsMask)
          mallocAfter wellFormed complete 0#64 0#64 with
        ⟨after, filteredMask, floodMask, finished, learned⟩ |
        ⟨⟨call, failed⟩, mallocLater, raised⟩
      · refine Or.inr ⟨_, filteredMask, floodMask,
          learntBurst_of_learned sound sameContents learned, ?_⟩
        simp only [finished]
      · simp only [raised]
        have failing : ∃ call, malloc call = false :=
          ⟨calls + call, by rw [isAfter] at failed; exact failed⟩
        have dropped : SwitchState.Sound { startLearning state table fromSide edgeIndex with
                isTableDead := true } :=
          SwitchState.sound_of_dead rfl
        rcases ih mallocLater dropped with
          ⟨_, stopped⟩ |
          ⟨live, filteredMask, floodMask, learnt, finished⟩
        · left
          refine ⟨Or.inl failing, ?_⟩
          rcases stopped with outOfRounds | ⟨after, returned, kept⟩
          · exact Or.inl outOfRounds
          · exact Or.inr ⟨after, returned, kept⟩
        · refine Or.inr ⟨live, filteredMask, floodMask, ?_, finished⟩
          refine ⟨learnt.sound, learnt.alive, learnt.masks, learnt.output,
            learnt.source, ?_, learnt.sourceLearnt, learnt.filtered, learnt.flooded⟩
          intro key pointer found
          rcases learnt.learnt key pointer found with here | before
          · exact Or.inl here
          · simp [SwitchState.learnt] at before
    · refine Or.inl ⟨Or.inl ⟨0, failed⟩, Or.inr ⟨state, ?_, dead, rfl, rfl⟩⟩
      rw [switchBurst]
      simp only [started]

/-- Every burst a switch sends is one of its forwarding loop. -/
theorem switchBurst_sends (multipole : brick.type = .multipole) {neighbours : Neighbours}
    {rounds : Nat} {state after : SwitchState} {code : Int} {error : Option PgError}
    {sends : List (Send ι)}
    (returned : switchBurst brick fromSide edgeIndex pkts pktsMask neighbours rounds malloc state =
        .returned code error sends after) {send : Send ι} (sent : send ∈ sends) :
    brick.linkAt send.side send.index = some (send.target, send.edgeIndex) ∧
      send.fromSide = pgFlipSide send.side := by
  induction rounds generalizing malloc state with
  | zero => exact absurd returned (by simp [switchBurst])
  | succ rounds ih =>
    rw [switchBurst] at returned
    simp only at returned
    split at returned
    · simp only [SwitchOutcome.returned.injEq] at returned
      rw [← returned.2.2.1] at sent
      exact absurd sent (by simp)
    · split at returned
      · exact absurd returned (by simp)
      · exact ih returned
      · simp only [switchPackets, SwitchOutcome.returned.injEq] at returned
        rw [← returned.2.2.1] at sent
        exact forwardPorts_through_links multipole _ _ _ sent

end Burst

end PacketGraph
