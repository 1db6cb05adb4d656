import PacketGraph.Switch.Learning
import PacketGraph.Lib.Retry

namespace PacketGraph

open BitMap BitScan List Option Retry

/-!
# How often a burst into a switch is restarted

Learning the sources of a burst takes two allocations for every prefix of
their MACs that the table has no sub-table for.  When one of them fails, the
burst starts over with an empty table, which takes an allocation of its own:
if that one fails as well, the burst returns.  So an allocator that goes on
granting the table and refusing a sub-table restarts the burst for ever.
-/

section Learning

/-- The prefixes of the source MACs of some packets. -/
def sourcePrefixes (pkts : Nat → Frame) (indices : List Nat) : Finset Nat :=
  (indices.map (fun i => pgMacTablePart1 (macAt (pkts i) sAddr))).toFinset

/-- The prefixes of source MACs that a table has no sub-table for. -/
def missingPrefixes (mask : Nat → BitVec 64) (pkts : Nat → Frame) (indices : List Nat) :
    Finset Nat :=
  (sourcePrefixes pkts indices).filter (fun part1 => testBit mask part1 = false)

variable {mask : Nat → BitVec 64} {i : Nat}

theorem missingPrefixes_of_set {pkts : Nat → Frame}
    (isSet : testBit mask (pgMacTablePart1 (macAt (pkts i) sAddr)) = true) (rest : List Nat) :
    missingPrefixes mask pkts (i :: rest) = missingPrefixes mask pkts rest := by
  unfold missingPrefixes sourcePrefixes
  rw [map_cons, toFinset_cons, Finset.filter_insert, if_neg]
  rw [isSet]
  exact Bool.noConfusion

theorem card_missingPrefixes_of_unset {pkts : Nat → Frame}
    (unset : testBit mask (pgMacTablePart1 (macAt (pkts i) sAddr)) = false) (rest : List Nat) :
    (missingPrefixes mask pkts (i :: rest)).card = (missingPrefixes
        (pgMacTableMaskSet mask (pgMacTablePart1 (macAt (pkts i) sAddr)))
        pkts rest).card + 1 := by
  have notMember : pgMacTablePart1 (macAt (pkts i) sAddr) ∉ missingPrefixes
          (pgMacTableMaskSet mask (pgMacTablePart1 (macAt (pkts i) sAddr)))
          pkts rest := by
    simp [missingPrefixes, marks_maskSet]
  rw [← Finset.card_insert_of_notMem notMember]
  congr 1
  ext part1
  simp only [missingPrefixes, sourcePrefixes, map_cons,
    toFinset_cons, Finset.mem_filter, Finset.mem_insert, marks_maskSet,
    Bool.or_eq_false_iff, decide_eq_false_iff_not]
  by_cases here : part1 = pgMacTablePart1 (macAt (pkts i) sAddr)
  · simp [here, unset]
  · simp [here]

variable {table : MacTable SourcePointer}

variable {mac : Mac}

/-- Setting an entry of a table that has its sub-table. -/
theorem macTableSet_of_set (wellFormed : table.WellFormed) (complete : table.Complete)
    (malloc : Malloc) (isSet : testBit table.mask (pgMacTablePart1 mac) = true)
    (entry : SourcePointer) :
    ∃ after, macTableSet malloc table mac entry = (.stored after, malloc) ∧
        after.mask = table.mask := by
  obtain ⟨inner, found, _⟩ := wellFormed.allocated _ isSet
  have filled := complete _ isSet
  unfold MacTable.sub at filled
  rw [found] at filled
  obtain ⟨entries, isEntries⟩ := isSome_iff_exists.mp filled
  rw [getD_some] at isEntries
  unfold macTableSet storeEntry
  dsimp only
  rw [if_pos isSet, found]
  dsimp only
  rw [isEntries]
  exact ⟨_, rfl, rfl⟩

/-- Setting an entry of a table that has no sub-table for it. -/
theorem macTableSet_of_unset (malloc : Malloc)
    (unset : testBit table.mask (pgMacTablePart1 mac) = false) (entry : SourcePointer) :
    ∃ after, match firstRefusal 2 malloc with
      | none =>
        macTableSet malloc table mac entry = (.stored after, malloc.after 2) ∧ after.mask =
            pgMacTableMaskSet table.mask (pgMacTablePart1 mac)
      | some call =>
        macTableSet malloc table mac entry = (.raised after, malloc.after (call + 1)) := by
  have notSet : ¬ pgMacTableIsSet table.mask (pgMacTablePart1 mac) = true := by
    simp [pgMacTableIsSet, unset]
  unfold macTableSet
  dsimp only
  rw [if_neg notSet]
  cases first : malloc 0 with
  | false =>
    have isFirst : firstRefusal 2 malloc = some 0 :=
      firstRefusal_eq_some_iff.mpr ⟨by decide, first, nofun⟩
    rw [isFirst]
    exact ⟨_, rfl⟩
  | true =>
    cases second : malloc 1 with
    | false =>
      have isFirst : firstRefusal 2 malloc = some 1 := by
        refine firstRefusal_eq_some_iff.mpr ⟨by decide, second, ?_⟩
        intro earlier before
        obtain rfl : earlier = 0 := by omega
        exact first
      rw [isFirst]
      exact ⟨_, rfl⟩
    | true =>
      have granted : firstRefusal 2 malloc = none := by
        refine firstRefusal_eq_none_iff.mpr (fun call below => ?_)
        match call, below with
        | 0, _ => exact first
        | 1, _ => exact second
      rw [granted]
      unfold storeEntry
      simp only [Function.update_self, ↓reduceIte]
      exact ⟨_, rfl, rfl⟩

/--
The learning loop takes two allocations for every missing prefix, until one of
them fails.
-/
theorem learnFrom_allocations (source : SourcePointer) (pkts : Nat → Frame) (indices : List Nat)
    (malloc : Malloc) (wellFormed : table.WellFormed) (complete : table.Complete)
    (filteredMask floodMask : BitVec 64) :
    match firstRefusal (2 * (missingPrefixes table.mask pkts indices).card) malloc
    with
    | none =>
      ∃ after filteredAfter floodAfter,
        learnFrom source pkts indices malloc table filteredMask floodMask =
          .learned after filteredAfter floodAfter
    | some call =>
      learnFrom source pkts indices malloc table filteredMask floodMask =
        .raised (malloc.after (call + 1)) := by
  induction indices generalizing malloc table filteredMask floodMask with
  | nil =>
    have nothing : firstRefusal (2 * (missingPrefixes table.mask pkts []).card) malloc = none :=
      firstRefusal_eq_none_iff.mpr (fun call below => by
        simp [missingPrefixes, sourcePrefixes] at below)
    rw [nothing]
    exact ⟨table, filteredMask, floodMask, rfl⟩
  | cons i rest ih =>
    have goesOn {after : MacTable SourcePointer} {mallocAfter : Malloc} (stored :
          macTableSet malloc table (macAt (pkts i) sAddr) source = (.stored after, mallocAfter)) :
        after.WellFormed ∧ after.Complete ∧
          learnFrom source pkts (i :: rest) malloc table filteredMask floodMask =
            learnFrom source pkts rest mallocAfter after
              (filteredMask ||| bitIf (isFiltered (pkts i)) i) (floodMask ||| bitIf
                  (!isFiltered (pkts i) && isMulticastEtherAddr (pkts i) dAddr) i) := by
      have isStored := congrArg Prod.fst stored
      refine ⟨(macTableSet_eq_stored wellFormed isStored).1, ?_, ?_⟩
      · rcases macTableSet_complete wellFormed complete malloc (macAt (pkts i) sAddr) source with
          ⟨other, isOther, otherComplete⟩ | ⟨_, other, isRaised⟩
        · rw [isStored] at isOther
          cases isOther
          exact otherComplete
        · rw [isStored] at isRaised
          cases isRaised
      · rw [learnFrom_cons_stored isStored, stored]
    cases isSet : testBit table.mask (pgMacTablePart1 (macAt (pkts i) sAddr)) with
    | true =>
      obtain ⟨after, stored, sameMask⟩ := macTableSet_of_set wellFormed complete malloc isSet source
      obtain ⟨formed, filled, continues⟩ := goesOn stored
      rw [missingPrefixes_of_set isSet, continues, ← sameMask]
      exact ih malloc formed filled _ _
    | false =>
      obtain ⟨after, setTo⟩ := macTableSet_of_unset malloc isSet source
      rw [card_missingPrefixes_of_unset isSet, Nat.mul_add, Nat.add_comm, firstRefusal_add]
      cases isTwo : firstRefusal 2 malloc with
      | some call =>
        rw [isTwo] at setTo
        simp only [learnFrom, pgMacTablePtrSet, setTo]
      | none =>
        rw [isTwo] at setTo
        obtain ⟨stored, isMask⟩ := setTo
        obtain ⟨formed, filled, continues⟩ := goesOn stored
        have learns :=
          ih (malloc.after 2) formed filled
            (filteredMask ||| bitIf (isFiltered (pkts i)) i) (floodMask ||| bitIf
                (!isFiltered (pkts i) && isMulticastEtherAddr (pkts i) dAddr) i)
        rw [continues]
        rw [isMask] at learns
        have sameCalls : later malloc (2 * 1) = malloc.after 2 := rfl
        rw [sameCalls]
        cases isFirst : firstRefusal (2 * (missingPrefixes (pgMacTableMaskSet table.mask
                  (pgMacTablePart1 (macAt (pkts i) sAddr))) pkts rest).card) (malloc.after 2) with
        | none =>
          rw [isFirst] at learns
          exact learns
        | some call =>
          rw [isFirst] at learns
          refine learns.trans (congrArg Learning.raised ?_)
          funext next
          simp [Malloc.after, Nat.add_assoc]

end Learning

section Rounds

variable {ι : Type} {brick : Brick ι} {fromSide : Side} {edgeIndex : Nat}
  {pkts : Nat → Frame} {pktsMask : BitVec 64} {neighbours : Neighbours}

/-- A burst has returned 0 or -1. -/
def SwitchOutcome.Returns (outcome : SwitchOutcome ι) : Prop :=
  ∃ code error sends state, outcome = .returned code error sends state ∧ (code = 0 ∨ code = -1)

theorem forwardPorts_code (brick : Brick ι) (ports : List (Side × Nat)) (neighbours : Neighbours)
    (masks : Side → Nat → BitVec 64) :
    (forwardPorts brick ports neighbours masks).code = 0 ∨
      (forwardPorts brick ports neighbours masks).code = -1 := by
  induction ports generalizing neighbours masks with
  | nil => exact .inl rfl
  | cons port rest ih =>
    unfold forwardPorts
    split
    · split
      · exact ih _ _
      · dsimp only
        split
        · exact .inr rfl
        · exact ih _ _
    · exact ih _ _

theorem switchPackets_returns (state : SwitchState) (filteredMask floodMask : BitVec 64) :
    (switchPackets brick state fromSide edgeIndex pkts pktsMask neighbours
      filteredMask floodMask).Returns :=
  ⟨_, _, _, _, rfl, forwardPorts_code ..⟩

/-- The number of allocations that a burst takes with an empty table. -/
def sourceAllocs (pkts : Nat → Frame) (pktsMask : BitVec 64) : Nat :=
  2 * (sourcePrefixes pkts (lowBits pktsMask)).card

/-- An empty table has a sub-table for no prefix. -/
theorem missingPrefixes_empty (pkts : Nat → Frame) (indices : List Nat) :
    missingPrefixes (fun _ => 0#64) pkts indices = sourcePrefixes pkts indices := by
  unfold missingPrefixes
  exact Finset.filter_true_of_mem (fun part1 _ => by simp [testBit])

variable {state : SwitchState}

/-- Bursts into a switch without a table are attempts to learn them. -/
theorem switchBurst_returns_of_dead (rounds : Nat) (malloc : Malloc)
    (dead : state.isTableDead = true) :
    (switchBurst brick fromSide edgeIndex pkts pktsMask neighbours rounds malloc state).Returns ↔
      (attempts (sourceAllocs pkts pktsMask) rounds malloc).isSome = true := by
  induction rounds generalizing malloc state with
  | zero =>
    constructor
    · rintro ⟨_, _, _, _, returned, _⟩
      cases returned
    · intro ended
      cases ended
  | succ rounds ih =>
    cases start : malloc 0 with
    | false =>
      have failed : switchBurst brick fromSide edgeIndex pkts pktsMask neighbours
              (rounds + 1) malloc state = .returned (-1) (some (macTableNoMem brick)) [] state := by
        rw [switchBurst]
        simp only [dead, ↓reduceIte, pgMacTableInit, start, Bool.false_eq_true]
      rw [failed, attempts, start]
      exact ⟨fun _ => rfl, fun _ => ⟨_, _, _, _, rfl, .inr rfl⟩⟩
    | true =>
      have started : (if state.isTableDead then
              pgMacTableInit SourcePointer malloc
            else
              (some state.table, malloc)) =
            (some { mask := fun _ => 0#64, subs := fun _ => none }, malloc.after 1) := by
        simp only [dead, ↓reduceIte, pgMacTableInit, start]
      have isTable : (pgMacTableInit SourcePointer malloc).1 =
            some { mask := fun _ => 0#64, subs := fun _ => none } := by
        simp [pgMacTableInit, start]
      have learns :=
        learnFrom_allocations (fromSide, edgeIndex) pkts (lowBits pktsMask) (malloc.after 1)
          (pgMacTableInit_eq_some isTable).1 (pgMacTableInit_complete isTable) 0#64 0#64
      dsimp only at learns
      rw [missingPrefixes_empty] at learns
      rw [switchBurst_started started, attempts, if_pos start]
      have sameCalls : later malloc 1 = malloc.after 1 := rfl
      rw [sameCalls]
      unfold sourceAllocs
      cases isFirst : firstRefusal (2 * (sourcePrefixes pkts (lowBits pktsMask)).card)
            (malloc.after 1) with
      | none =>
        rw [isFirst] at learns
        obtain ⟨after, filteredAfter, floodAfter, learnt⟩ := learns
        rw [learnt]
        exact ⟨fun _ => rfl, fun _ => switchPackets_returns _ _ _⟩
      | some call =>
        rw [isFirst] at learns
        rw [learns]
        dsimp only
        have again : (malloc.after 1).after (call + 1) = later malloc (1 + (call + 1)) := by
          funext next
          simp [Malloc.after, later, Nat.add_assoc]
        rw [again]
        exact ih _ rfl

/-- The first round of a burst is the last one. -/
def FirstRoundEnds (state : SwitchState) (pkts : Nat → Frame) (pktsMask : BitVec 64)
    (malloc : Malloc) : Prop :=
  if state.isTableDead then
    Settles (sourceAllocs pkts pktsMask) malloc
  else
    ∀ call < 2 * (missingPrefixes state.table.mask pkts (lowBits pktsMask)).card, malloc call = true

theorem firstRoundEnds_of_alive (alive : state.isTableDead = false) {malloc : Malloc} :
    FirstRoundEnds state pkts pktsMask malloc ↔ ∀ call <
        2 * (missingPrefixes state.table.mask pkts (lowBits pktsMask)).card,
        malloc call = true := by
  unfold FirstRoundEnds
  rw [alive, if_neg Bool.false_ne_true]

/-- A burst into a sound switch returns exactly if the allocator relents. -/
theorem switchBurst_returns_iff (malloc : Malloc) (sound : state.Sound) :
    (∃ rounds,
      (switchBurst brick fromSide edgeIndex pkts pktsMask neighbours rounds malloc state).Returns) ↔
      FirstRoundEnds state pkts pktsMask malloc ∨ Relents (sourceAllocs pkts pktsMask) malloc := by
  cases dead : state.isTableDead with
  | true =>
    unfold FirstRoundEnds
    rw [if_pos dead, ← attempts_end_iff]
    exact exists_congr (fun rounds => switchBurst_returns_of_dead rounds malloc dead)
  | false =>
    rw [firstRoundEnds_of_alive dead]
    have started : (if state.isTableDead then
            pgMacTableInit SourcePointer malloc
          else
            (some state.table, malloc)) = (some state.table, malloc) := by
      simp [dead]
    have learns :=
      learnFrom_allocations (fromSide, edgeIndex) pkts (lowBits pktsMask)
        malloc (sound.wellFormed dead) (sound.complete dead) 0#64 0#64
    cases isFirst : firstRefusal (2 * (missingPrefixes state.table.mask pkts
            (lowBits pktsMask)).card) malloc with
    | none =>
      rw [isFirst] at learns
      obtain ⟨after, filteredAfter, floodAfter, learnt⟩ := learns
      refine ⟨fun _ => .inl (firstRefusal_eq_none_iff.mp isFirst), fun _ => ⟨1, ?_⟩⟩
      rw [switchBurst_started started, learnt]
      exact switchPackets_returns _ _ _
    | some call =>
      rw [isFirst] at learns
      obtain ⟨below, refused, earlier⟩ := firstRefusal_eq_some_iff.mp isFirst
      have restarts (rounds : Nat) : (switchBurst brick fromSide edgeIndex pkts pktsMask neighbours
              (rounds + 1) malloc state).Returns ↔ (attempts (sourceAllocs pkts pktsMask) rounds
              (later malloc (call + 1))).isSome = true := by
        rw [switchBurst_started started, learns]
        exact switchBurst_returns_of_dead rounds (malloc.after (call + 1)) rfl
      rw [relents_iff_of_first refused earlier, ← attempts_end_iff]
      constructor
      · rintro ⟨rounds, returns⟩
        cases rounds with
        | zero =>
          obtain ⟨_, _, _, _, returned, _⟩ := returns
          cases returned
        | succ rounds => exact .inr ⟨rounds, (restarts rounds).mp returns⟩
      · rintro (granted | ⟨rounds, ends⟩)
        · rw [granted call below] at refused
          cases refused
        · exact ⟨rounds + 1, (restarts rounds).mpr ends⟩

end Rounds

section Runs

variable {ι τ : Type} [DecidableEq ι] [Fintype ι] {others : BrickOps ι τ}

/-- Every switch of a run is sound. -/
theorem switchGraph_sound {graph : Graph ι (Node SwitchState τ)}
    (reachable : (switchSystem others).Reachable graph) : SwitchGraph (fun _ _ => True) graph := by
  refine reachable.invariant ?_ ?_
  · intro start made
    exact switchGraph_initial (fun _ _ _ _ => trivial) made
  · rintro before event after holds step
    cases event with
    | call call =>
      obtain ⟨outcome, executed⟩ := step
      exact holds.exec (keptByAttach_switchHolds (fun _ _ _ _ _ _ _ _ => trivial))
        (keptByUnlink_switchHolds (fun _ _ _ _ _ _ => trivial) (fun _ _ _ _ _ _ _ _ => trivial))
        executed
    | burst input =>
      obtain ⟨state, rounds, code, error, sends, stateAfter, isSwitch,
        linkedPort, returned, rfl⟩ := step
      refine holds.update isSwitch ?_
      rintro _ ⟨multipole, sound, _⟩
      exact ⟨multipole, (run_returned sound returned).1, trivial⟩

/--
In every run, a burst into a switch is restarted finitely often and returns 0
or -1 exactly if its first round needs no restart or if, after some refused
allocation, the allocator refuses the table as well or grants it and all the
sub-tables of the burst.
-/
theorem switch_burst_returns_iff {graph : Graph ι (Node SwitchState τ)}
    (reachable : (switchSystem others).Reachable graph) {input : BurstInput ι} {state : SwitchState}
    (isSwitch : graph.priv input.target = .own state) :
    (∃ rounds, (input.run (graph.brick input.target) state rounds).Returns) ↔
      FirstRoundEnds state input.pkts input.pktsMask input.malloc ∨
        Relents (sourceAllocs input.pkts input.pktsMask) input.malloc := by
  obtain ⟨_, sound, _⟩ := (switchGraph_sound reachable).nodes input.target state isSwitch
  exact switchBurst_returns_iff input.malloc sound

end Runs

/-- An allocator that grants tables and refuses their sub-tables. -/
def stubbornMalloc : Malloc :=
  fun call => decide (call % 2 = 1)

/-- A burst of one frame for which no sub-table is granted. -/
def stubbornBurst : BurstInput Bool :=
  { meshBurst with malloc := stubbornMalloc }

theorem meshLinked_reachable : (switchSystem (quietOps Bool)).Reachable meshLinked :=
  .step (.call (.link (some true) (some false))) (.initial meshGraph_initial) ⟨none, rfl⟩

theorem meshBurst_prefixes :
    missingPrefixes (freshTable SourcePointer).table.mask meshBurst.pkts
        (lowBits meshBurst.pktsMask) = {2} ∧
      sourceAllocs meshBurst.pkts meshBurst.pktsMask = 2 := by
  have one : lowBits meshBurst.pktsMask = [0] := by decide +kernel
  have isPrefix : pgMacTablePart1 (macAt (meshBurst.pkts 0) sAddr) = 2 := by decide +kernel
  have sources : sourcePrefixes meshBurst.pkts (lowBits meshBurst.pktsMask) = {2} := by
    rw [one]
    unfold sourcePrefixes
    rw [map_singleton, isPrefix]
    rfl
  refine ⟨(missingPrefixes_empty _ _).trans sources, ?_⟩
  unfold sourceAllocs
  rw [sources]
  rfl

/-- The sub-table of the frame is what a burst of it asks for first. -/
theorem not_firstRoundEnds_meshBurst {malloc : Malloc} (refused : malloc 0 = false) :
    ¬ FirstRoundEnds (meshState (freshTable SourcePointer).table (fun _ _ => 0#64))
        meshBurst.pkts meshBurst.pktsMask malloc := by
  rw [firstRoundEnds_of_alive rfl]
  intro granted
  have first := granted 0 (by
    unfold meshState
    rw [meshBurst_prefixes.1]
    decide)
  rw [refused] at first
  cases first

/-- A burst of one frame whose first allocation is refused. -/
def restartedBurst : BurstInput Bool :=
  { meshBurst with malloc := fun call => decide (0 < call) }

/-- A burst whose first round was broken off returns when it is restarted. -/
theorem switch_burst_returns_iff_granted :
    ¬ FirstRoundEnds (meshState (freshTable SourcePointer).table (fun _ _ => 0#64))
        restartedBurst.pkts restartedBurst.pktsMask restartedBurst.malloc ∧
      ∃ rounds, (restartedBurst.run (meshLinked.brick false)
        (meshState (freshTable SourcePointer).table (fun _ _ => 0#64)) rounds).Returns := by
  have isSwitch : meshLinked.priv restartedBurst.target =
        .own (meshState (freshTable SourcePointer).table (fun _ _ => 0#64)) :=
    rfl
  refine ⟨not_firstRoundEnds_meshBurst rfl, ?_⟩
  refine (switch_burst_returns_iff meshLinked_reachable isSwitch).mpr (.inr ⟨0, rfl, .inr ?_⟩)
  intro grant _
  exact decide_eq_true (by omega)

/-- The allocator never relents, whatever more than a table is needed. -/
theorem not_relents_stubbornMalloc {need : Nat} (some : 0 < need) :
    ¬ Relents need stubbornMalloc := by
  rintro ⟨call, refused, settles⟩
  have even : call % 2 = 0 := by
    simp only [stubbornMalloc, decide_eq_false_iff_not] at refused
    omega
  rcases settles with refusedTable | granted
  · simp only [later, stubbornMalloc, decide_eq_false_iff_not] at refusedTable
    omega
  · have sub := granted 1 some
    simp only [later, stubbornMalloc, decide_eq_true_eq] at sub
    omega

/--
A burst of one frame never returns when the allocator goes on granting the
table and refusing the sub-table of its source.
-/
theorem switch_burst_never_returns :
    (∀ call, stubbornMalloc (2 * call) = false ∧ stubbornMalloc (2 * call + 1) = true) ∧
      (switchSystem (quietOps Bool)).Reachable meshLinked ∧
      stubbornBurst.Linked (meshLinked.brick false) ∧
      ∀ rounds, stubbornBurst.run (meshLinked.brick false)
            (meshState (freshTable SourcePointer).table (fun _ _ => 0#64))
            rounds =
          .outOfRounds := by
  refine ⟨fun call => ?_, meshLinked_reachable, rfl, fun rounds => ?_⟩
  · simp [stubbornMalloc]
  · have sound : (meshState (freshTable SourcePointer).table (fun _ _ => 0#64)).Sound :=
      ((switchGraph_sound meshLinked_reachable).nodes false _ rfl).2.1
    have never : ¬ (stubbornBurst.run (meshLinked.brick false)
            (meshState (freshTable SourcePointer).table (fun _ _ => 0#64)) rounds).Returns := by
      intro returns
      have relents : FirstRoundEnds (meshState (freshTable SourcePointer).table (fun _ _ => 0#64))
              meshBurst.pkts meshBurst.pktsMask stubbornMalloc ∨
            Relents (sourceAllocs meshBurst.pkts meshBurst.pktsMask)
              stubbornMalloc :=
        (switchBurst_returns_iff _ sound).mp ⟨rounds, returns⟩
      rcases relents with ends | relents
      · exact not_firstRoundEnds_meshBurst rfl ends
      · rw [meshBurst_prefixes.2] at relents
        exact not_relents_stubbornMalloc (by decide) relents
    rcases switchBurst_cases stubbornBurst.neighbours rounds stubbornBurst.malloc sound with
      ⟨_, outOfRounds | ⟨after, returned, _⟩⟩ | ⟨_, _, _, _, finished⟩
    · exact outOfRounds
    · exact absurd ⟨_, _, _, _, returned, .inr rfl⟩ never
    · refine absurd ?_ never
      unfold BurstInput.run
      rw [finished]
      exact switchPackets_returns _ _ _

end PacketGraph
