import PacketGraph.Partition.Relink

namespace PacketGraph

open Components Function Option

/-!
# Splitting a graph

How a split ends: without a cut it leaves bricks and graph alone, and after a
cut it fills two graphs if every later step succeeds.  Whether they succeed is
said in terms of the bricks once the link is cut: there have to be addresses
for the queues, room on the east brick and names that are not taken.
-/

variable {ι σ : Type}

section Component

variable [DecidableEq ι] [Fintype ι]

/-- Connected bricks are connected in both directions. -/
theorem Connected.symm {bricks : ι → Brick ι} (invariant : LinkInvariant bricks) {brick other : ι}
    (connected : Connected bricks brick other) : Connected bricks other brick := by
  induction connected with
  | refl => exact .refl
  | tail _ adjacent ih => exact .head (adjacent.symm invariant) ih

/-- A brick without a link is adjacent to no brick. -/
theorem LinkInvariant.isolated {bricks : ι → Brick ι} (invariant : LinkInvariant bricks) {brick : ι}
    (unlinked : ∀ side index, (bricks brick).linkAt side index = none) :
    Isolated (Adjacent bricks) brick := by
  have outgoing (other : ι) : ¬ Adjacent bricks brick other := by
    rintro ⟨side, index, pairIndex, linked⟩
    rw [unlinked] at linked
    cases linked
  exact fun other => ⟨outgoing other, fun adjacent => outgoing other (adjacent.symm invariant)⟩

variable {names : SplitNames} {before after : World ι σ} {w e qw qe : ι}

section

variable (relinked : Relinked names before after w e qw qe)
  (invariant : LinkInvariant before.bricks) (places : QueuePlaces before.bricks w e qw qe)
  (brick : ι)

include relinked invariant places

/-- The component of the west queue. -/
theorem Relinked.connected_west :
    Connected after.bricks qw brick ↔ brick = qw ∨ Connected before.bricks w brick ∨
        Connected before.bricks w e ∧ brick = qe := by
  unfold Connected
  rw [relinked.adjacent, addEdge_swap _ qe e]
  exact reach_from_pendant_iff (invariant.isolated places.westUnlinked)
    (invariant.isolated places.eastUnlinked)
    places.queuesDiffer places.westNotEast places.eastNotWest

/-- The component of the east queue. -/
theorem Relinked.connected_east :
    Connected after.bricks qe brick ↔ brick = qe ∨ Connected before.bricks e brick ∨
        Connected before.bricks e w ∧ brick = qw := by
  unfold Connected
  rw [relinked.adjacent, addEdge_comm, addEdge_swap _ qe e]
  exact reach_from_pendant_iff (invariant.isolated places.eastUnlinked)
    (invariant.isolated places.westUnlinked)
    places.queuesDiffer.symm places.eastNotWest places.westNotEast

end

omit [DecidableEq ι] [Fintype ι] in
/-- The bricks connected to a brick have distinct names, and none this one. -/
def NamedApart (bricks : ι → Brick ι) (brick : ι) (name : String) : Prop :=
  DistinctNames bricks brick ∧ ∀ other, Connected bricks brick other → (bricks other).name ≠ name

omit [DecidableEq ι] [Fintype ι] in
/--
The names of a component that consists of a queue, of the bricks behind it
and, if `both` holds, of another queue.
-/
theorem distinctNames_queue_iff
    {bricks relinkedBricks : ι → Brick ι} {start queue other : ι} {both : Prop}
    (component : ∀ brick, Connected relinkedBricks queue brick ↔ brick = queue ∨ Connected bricks
        start brick ∨ both ∧ brick = other)
    (old : ∀ brick, Connected bricks start brick → brick ≠ queue ∧ brick ≠ other ∧ (relinkedBricks
        brick).name = (bricks brick).name)
    (distinct : queue ≠ other) :
    DistinctNames relinkedBricks queue ↔ NamedApart bricks start (relinkedBricks queue).name ∧
        (both → (relinkedBricks queue).name ≠ (relinkedBricks other).name ∧
            ∀ brick, Connected bricks start brick →
              (bricks brick).name ≠ (relinkedBricks other).name) := by
  have isQueue : Connected relinkedBricks queue queue := .refl
  have isOld {brick : ι} (connected : Connected bricks start brick) :
      Connected relinkedBricks queue brick :=
    (component brick).mpr (.inr (.inl connected))
  constructor
  · intro names
    refine ⟨⟨fun one another oneIn anotherIn same => ?_,
      fun brick isIn same => ?_⟩, fun holds => ?_⟩
    · refine names one another (isOld oneIn) (isOld anotherIn) ?_
      rw [(old one oneIn).2.2, (old another anotherIn).2.2, same]
    · refine (old brick isIn).1 (names brick queue (isOld isIn) isQueue ?_)
      rw [(old brick isIn).2.2, same]
    · have isOther : Connected relinkedBricks queue other :=
        (component other).mpr (.inr (.inr ⟨holds, rfl⟩))
      refine ⟨fun same => distinct (names queue other isQueue isOther same),
        fun brick isIn same => ?_⟩
      refine (old brick isIn).2.1 (names brick other (isOld isIn) isOther ?_)
      rw [(old brick isIn).2.2, same]
  · rintro ⟨⟨names, notQueue⟩, notOther⟩ one another oneIn anotherIn same
    rw [component] at oneIn anotherIn
    rcases oneIn with rfl | oneOld | ⟨holds, rfl⟩
    · rcases anotherIn with rfl | anotherOld | ⟨holds, rfl⟩
      · rfl
      · rw [(old another anotherOld).2.2] at same
        exact absurd same.symm (notQueue another anotherOld)
      · exact absurd same (notOther holds).1
    · rw [(old one oneOld).2.2] at same
      rcases anotherIn with rfl | anotherOld | ⟨holds, rfl⟩
      · exact absurd same (notQueue one oneOld)
      · rw [(old another anotherOld).2.2] at same
        exact names one another oneOld anotherOld same
      · exact absurd same ((notOther holds).2 one oneOld)
    · rcases anotherIn with rfl | anotherOld | ⟨_, rfl⟩
      · exact absurd same.symm (notOther holds).1
      · rw [(old another anotherOld).2.2] at same
        exact absurd same.symm ((notOther holds).2 another anotherOld)
      · rfl

/-- Both explorations succeed exactly when the names on each side differ. -/
theorem Relinked.distinctNames_iff (relinked : Relinked names before after w e qw qe)
    (invariant : LinkInvariant before.bricks) (places : QueuePlaces before.bricks w e qw qe) :
    (DistinctNames after.bricks qw ∧ DistinctNames after.bricks qe) ↔
      NamedApart before.bricks w names.westQueue ∧ NamedApart before.bricks e names.eastQueue ∧
        (Connected before.bricks w e → names.westQueue ≠ names.eastQueue) := by
  have westName : (after.bricks qw).name = names.westQueue := by
    rw [relinked.named, if_neg places.queuesDiffer, if_pos rfl]
  have eastName : (after.bricks qe).name = names.eastQueue := by rw [relinked.named, if_pos rfl]
  have old {start : ι} (notWest : start ≠ qw) (notEast : start ≠ qe)
      (brick : ι) (connected : Connected before.bricks start brick) : brick ≠ qw ∧ brick ≠ qe ∧
        (after.bricks brick).name = (before.bricks brick).name := by
    have apart {queue : ι} (notQueue : start ≠ queue) (unlinked :
          ∀ side index, (before.bricks queue).linkAt side index = none) : brick ≠ queue := by
      rintro rfl
      exact notQueue ((reach_to_isolated_iff
        (fun other => (invariant.isolated unlinked other).2)).mp connected)
    have notQw := apart notWest places.westUnlinked
    have notQe := apart notEast places.eastUnlinked
    refine ⟨notQw, notQe, ?_⟩
    rw [relinked.named, if_neg notQe, if_neg notQw]
  rw [distinctNames_queue_iff (relinked.connected_west invariant places)
      (old places.westNotWest places.westNotEast) places.queuesDiffer, distinctNames_queue_iff
      (relinked.connected_east invariant places) (fun brick connected =>
        have kept := old places.eastNotWest places.eastNotEast brick connected
        ⟨kept.2.1, kept.1, kept.2.2⟩)
      places.queuesDiffer.symm,
    westName, eastName]
  constructor
  · rintro ⟨⟨west, both⟩, ⟨east, _⟩⟩
    exact ⟨west, east, fun connected => (both connected).1⟩
  · rintro ⟨west, east, both⟩
    refine ⟨⟨west, fun connected => ⟨both connected, fun brick isIn => ?_⟩⟩, ⟨east, fun connected =>
        ⟨(both (connected.symm invariant)).symm, fun brick isIn => ?_⟩⟩⟩
    · exact east.2 brick ((connected.symm invariant).trans isIn)
    · exact west.2 brick ((connected.symm invariant).trans isIn)

end Component

section Explorations

variable [DecidableEq ι] [Fintype ι]

/-- The end of a split fills two graphs, or returns no graph. -/
theorem exploreBothQueues_returns {world : World ι σ} (invariant : LinkInvariant world.bricks)
    (first : List ι → Option ι) {rounds : Nat} (enough : Fintype.card ι ≤ rounds)
    (graph : PgGraph ι) (eastGraph : String) (qw qe : ι) :
    ∃ result, exploreBothQueues world first rounds graph eastGraph qw qe = some result ∧
        result.world = world ∧
        ((DistinctNames world.bricks qw ∧ DistinctNames world.bricks qe) → ∃ east,
            result.east = some east ∧ result.error = none ∧
              HoldsComponent world.bricks world.polls qw result.graph ∧
              HoldsComponent world.bricks world.polls qe east) ∧
        (¬ (DistinctNames world.bricks qw ∧ DistinctNames world.bricks qe) →
          result.east = none) := by
  unfold exploreBothQueues pgGraphNew
  by_cases westNames : DistinctNames world.bricks qw
  · obtain ⟨west, returned, westHolds⟩ :=
      pgGraphExplorePtr_of_distinct invariant world.polls first graph enough westNames
    rw [returned]
    dsimp only
    let blank : PgGraph ι := { name := eastGraph, all := [], pollable := [] }
    by_cases eastNames : DistinctNames world.bricks qe
    · obtain ⟨east, explored, eastHolds⟩ :=
        pgGraphExplorePtr_of_distinct invariant world.polls first blank enough eastNames
      rw [explored]
      exact ⟨_, rfl, rfl, fun _ => ⟨east, rfl, rfl, westHolds, eastHolds⟩,
        fun shared => absurd ⟨westNames, eastNames⟩ shared⟩
    · obtain ⟨failure, left, explored⟩ :=
        pgGraphExplorePtr_of_shared invariant world.polls first blank enough eastNames
      rw [explored]
      exact ⟨_, rfl, rfl, fun both => absurd both.2 eastNames, fun _ => rfl⟩
  · obtain ⟨failure, left, returned⟩ :=
      pgGraphExplorePtr_of_shared invariant world.polls first graph enough westNames
    rw [returned]
    exact ⟨_, rfl, rfl, fun both => absurd both.1 westNames, fun _ => rfl⟩

end Explorations

section Outcome

variable [DecidableEq ι] {ops : BrickOps ι σ} {world : World ι σ}
  {graph : PgGraph ι} {names : SplitNames} {westSlot eastSlot : Option (ι × σ)}

/-- The link between two bricks of a graph that a split cuts. -/
structure CutMade (ops : BrickOps ι σ) (world : World ι σ) (graph : PgGraph ι) (names : SplitNames)
    (w e : ι) (side : Side) (index pairIndex : Nat) : Prop where
  west : pgGraphGet world.bricks graph names.westBrick = some w
  east : pgGraphGet world.bricks graph names.eastBrick = some e
  found : edgeToCut world.bricks w e = some (side, index, pairIndex)
  quiet : LinkQuiet ops world.links w side index e pairIndex

/-- The addresses of new queues are unused. -/
structure SlotsUnused (world : World ι σ) (graph : PgGraph ι) (westSlot eastSlot : Option (ι × σ))
    : Prop where
  west : ∀ slot ∈ westSlot, Unused world graph slot.1
  east : ∀ slot ∈ eastSlot, Unused world graph slot.1
  differ : ∀ qw ∈ westSlot, ∀ qe ∈ eastSlot, qw.1 ≠ qe.1

/-- Everything that has to succeed after the link was cut. -/
structure Completes (bricks : ι → Brick ι) (w e : ι) (names : SplitNames)
    (westSlot eastSlot : Option (ι × σ)) : Prop where
  westSlot : westSlot ≠ none
  eastSlot : eastSlot ≠ none
  room : isPlaceAvailable (bricks e) .west = true
  westNames : NamedApart bricks w names.westQueue
  eastNames : NamedApart bricks e names.eastQueue
  apart : Connected bricks w e → names.westQueue ≠ names.eastQueue

/-- A brick that existed before the queues were made. -/
def IsOld (westSlot eastSlot : Option (ι × σ)) (brick : ι) : Prop :=
  (∀ slot ∈ westSlot, brick ≠ slot.1) ∧ ∀ slot ∈ eastSlot, brick ≠ slot.1

omit [DecidableEq ι] in
/-- A linked brick is at no unused address. -/
theorem Unused.ne_of_linkAt {address brick : ι} (unused : Unused world graph address)
    {side : Side} {index : Nat} {link : ι × Nat}
    (linked : (world.bricks brick).linkAt side index = some link) : brick ≠ address := by
  rintro rfl
  rw [unused.unlinked] at linked
  cases linked

omit [DecidableEq ι] in
theorem SlotsUnused.isOld (unused : SlotsUnused world graph westSlot eastSlot)
    {brick : ι} {side : Side} {index : Nat} {link : ι × Nat}
    (linked : (world.bricks brick).linkAt side index = some link) : IsOld westSlot eastSlot brick :=
  ⟨fun slot isSlot => (unused.west slot isSlot).ne_of_linkAt linked,
    fun slot isSlot => (unused.east slot isSlot).ne_of_linkAt linked⟩

variable [Fintype ι] {w e : ι} {side : Side} {index pairIndex : Nat}

/-- A split that does not cut a link leaves bricks and graph alone. -/
theorem pgGraphSplit_of_uncut (first : List ι → Option ι) (rounds : Nat)
    (invariant : LinkInvariant world.bricks)
    (uncut : ∀ w e side index pairIndex, ¬ CutMade ops world graph names w e side index pairIndex)
    (westSlot eastSlot : Option (ι × σ)) :
    ∃ result, pgGraphSplit ops first rounds world graph names westSlot eastSlot =
          .ok (some result) ∧
        result.east = none ∧
        result.world.bricks = world.bricks ∧
        result.graph = graph := by
  unfold pgGraphSplit
  cases westFound : pgGraphGet world.bricks graph names.westBrick with
  | none => exact ⟨_, rfl, rfl, rfl, rfl⟩
  | some w =>
    cases eastFound : pgGraphGet world.bricks graph names.eastBrick with
    | none => exact ⟨_, rfl, rfl, rfl, rfl⟩
    | some e =>
      cases isCut : edgeToCut world.bricks w e with
      | none =>
        obtain ⟨failure, returned⟩ := pgBrickUnlinkEdge_of_none ops isCut
        dsimp only
        rw [returned]
        exact ⟨_, rfl, rfl, rfl, rfl⟩
      | some place =>
        obtain ⟨side, index, pairIndex⟩ := place
        have objects : ¬ LinkQuiet ops world.links w side index e pairIndex :=
          fun quiet => uncut w e side index pairIndex ⟨westFound, eastFound, isCut, quiet⟩
        obtain ⟨failure, left, broken, kept⟩ := breakLink_of_objection objects
        dsimp only
        rw [pgBrickUnlinkEdge_of_some ops invariant isCut, broken]
        exact ⟨_, rfl, rfl, kept, rfl⟩

namespace CutMade

variable (cut : CutMade ops world graph names w e side index pairIndex)
  (invariant : LinkInvariant world.bricks)

include cut

omit [Fintype ι] in
theorem linked : (world.bricks w).linkAt side index = some (e, pairIndex) :=
  (linkAt_of_edgeToCut cut.found).1

include invariant

/-- The west brick has room for its queue where the link was cut. -/
theorem westRoom :
    isPlaceAvailable (cutLink world.bricks w side index e pairIndex w) .east =
      true := by
  have distinct := invariant.ne_of_linkAt cut.linked
  unfold cutLink
  rw [update_of_ne distinct, update_self]
  exact (invariant.counted w).room_detach cut.linked (linkAt_of_edgeToCut cut.found).2

/-- Unused addresses stay unlinked and beside the ends of the cut link. -/
theorem places (unused : SlotsUnused world graph westSlot eastSlot) :
    SlotPlaces (cutLink world.bricks w side index e pairIndex) w e westSlot eastSlot := by
  have back := invariant.back cut.linked
  have stays {address : ι} (unlinked : Unused world graph address)
      (otherSide : Side) (otherIndex : Nat) :
      (cutLink world.bricks w side index e pairIndex address).linkAt otherSide otherIndex =
        none := by
    rw [linkAt_cutLink invariant cut.linked, unlinked.unlinked]
    simp
  refine ⟨fun slot isSlot => stays (unused.west slot isSlot), fun qw isWest qe isEast => ?_⟩
  have west := unused.west qw isWest
  have east := unused.east qe isEast
  exact
    { westUnlinked := stays west
      eastUnlinked := stays east
      bricksDiffer := invariant.ne_of_linkAt cut.linked
      queuesDiffer := unused.differ qw isWest qe isEast
      westNotWest := west.ne_of_linkAt cut.linked
      westNotEast := east.ne_of_linkAt cut.linked
      eastNotWest := west.ne_of_linkAt back
      eastNotEast := east.ne_of_linkAt back }

/-- What a split leaves that completes after its cut. -/
structure Done (ops : BrickOps ι σ) (world : World ι σ) (names : SplitNames) (w e : ι) (side : Side)
    (index pairIndex : Nat) (result : SplitResult ι σ) (east : PgGraph ι) (qw qe : ι) : Prop where
  returned : result.east = some east
  quiet : result.error = none
  invariant : LinkInvariant result.world.bricks
  relinked : Relinked names (world.withLinks (cutGraph ops world.links w side index e pairIndex))
      result.world w e qw qe
  westHolds : HoldsComponent result.world.bricks result.world.polls qw result.graph
  eastHolds : HoldsComponent result.world.bricks result.world.polls qe east

/-- What a split does after it cut a link. -/
theorem split_eq (first : List ι → Option ι) (rounds : Nat) :
    pgGraphSplit ops first rounds world graph names westSlot eastSlot =
      match relinkThroughQueues
          (world.withLinks (cutGraph ops world.links w side index e pairIndex))
          (some w) (some e) names westSlot eastSlot with
      | .error failure => .error failure
      | .ok (.error failure, world) => .ok (some ⟨world, graph, none, some failure⟩)
      | .ok (.ok (qw, qe), world) =>
        .ok (exploreBothQueues world first rounds graph names.eastGraph qw qe) := by
  unfold pgGraphSplit
  rw [cut.west, cut.east]
  dsimp only
  rewrite [pgBrickUnlinkEdge_of_some ops invariant cut.found, breakLink_of_quiet cut.quiet]
  rfl

/-- How a split ends after it cut a link. -/
theorem returns (first : List ι → Option ι) {rounds : Nat} (enough : Fintype.card ι ≤ rounds)
    (unused : SlotsUnused world graph westSlot eastSlot) :
    ∃ result, pgGraphSplit ops first rounds world graph names westSlot eastSlot =
          .ok (some result) ∧
        (Completes (cutLink world.bricks w side index e pairIndex) w e names westSlot eastSlot →
          ∃ east, ∃ qw ∈ westSlot, ∃ qe ∈ eastSlot,
            Done ops world names w e side index pairIndex result east qw.1 qe.1) ∧
        (¬ Completes (cutLink world.bricks w side index e pairIndex) w e names westSlot eastSlot →
          result.east = none ∧ ∀ west east, IsOld westSlot eastSlot west →
              IsOld westSlot eastSlot east →
              eastLinks result.world.bricks west east =
                eastLinks (cutLink world.bricks w side index e pairIndex) west east) := by
  let mid := world.withLinks (cutGraph ops world.links w side index e pairIndex)
  have midInvariant : LinkInvariant mid.bricks := invariant.cut cut.linked
  have room : isPlaceAvailable (mid.bricks w) .east = true := cut.westRoom invariant
  have slots : SlotPlaces mid.bricks w e westSlot eastSlot := cut.places invariant unused
  rw [cut.split_eq invariant]
  by_cases fails : westSlot = none ∨ eastSlot = none ∨
        ¬ isPlaceAvailable (mid.bricks e) .west = true
  · obtain ⟨failure, after, relinked, kept⟩ :=
      relinkThroughQueues_fails slots midInvariant room fails names
    rw [relinked]
    refine ⟨_, rfl, fun completes => ?_, fun _ => ⟨rfl, ?_⟩⟩
    · rcases fails with absent | absent | full
      · exact absurd absent completes.westSlot
      · exact absurd absent completes.eastSlot
      · exact absurd completes.room full
    · intro west east _ eastOld
      exact kept west east eastOld.1
  · push Not at fails
    obtain ⟨westMade, eastMade, eastRoom⟩ := fails
    obtain ⟨⟨qw, pw⟩, rfl⟩ := ne_none_iff_exists'.mp westMade
    obtain ⟨⟨qe, pe⟩, rfl⟩ := ne_none_iff_exists'.mp eastMade
    have queuePlaces := slots.both (qw, pw) rfl (qe, pe) rfl
    obtain ⟨after, made, afterInvariant, relinked⟩ :=
      relinkThroughQueues_eq queuePlaces midInvariant room eastRoom names pw pe
    obtain ⟨result, explored, sameWorld, succeeds, fails⟩ :=
      exploreBothQueues_returns afterInvariant first enough graph names.eastGraph qw qe
    have namesIff := relinked.distinctNames_iff midInvariant queuePlaces
    rw [made]
    refine ⟨result, by rw [← explored], fun completes => ?_, fun stops => ?_⟩
    · obtain ⟨east, isEast, noError, westHolds, eastHolds⟩ :=
        succeeds (namesIff.mpr ⟨completes.westNames, completes.eastNames, completes.apart⟩)
      rw [← sameWorld] at westHolds eastHolds relinked afterInvariant
      exact ⟨east, (qw, pw), rfl, (qe, pe), rfl, isEast, noError,
        afterInvariant, relinked, westHolds, eastHolds⟩
    · have shared : ¬ (DistinctNames after.bricks qw ∧ DistinctNames after.bricks qe) := by
        intro both
        obtain ⟨westNames, eastNames, apart⟩ := namesIff.mp both
        exact stops ⟨westMade, eastMade, eastRoom, westNames, eastNames, apart⟩
      refine ⟨fails shared, fun west east westOld eastOld => ?_⟩
      rw [sameWorld, relinked.links, if_neg (fun gained => eastOld.1 (qw, pw) rfl gained.2),
        if_neg (fun gained => westOld.2 (qe, pe) rfl gained.1)]
      rfl

end CutMade

/-- A split that returns a graph cut a link and completed. -/
theorem pgGraphSplit_done {first : List ι → Option ι} {rounds : Nat}
    (enough : Fintype.card ι ≤ rounds) (invariant : LinkInvariant world.bricks)
    (unused : SlotsUnused world graph westSlot eastSlot)
    {result : SplitResult ι σ} {east : PgGraph ι}
    (returned :
      pgGraphSplit ops first rounds world graph names westSlot eastSlot = .ok (some result))
    (isEast : result.east = some east) :
    ∃ w e side index pairIndex, ∃ qw ∈ westSlot, ∃ qe ∈ eastSlot,
      CutMade ops world graph names w e side index pairIndex ∧
        CutMade.Done ops world names w e side index pairIndex result east qw.1 qe.1 := by
  by_cases someCut : ∃ w e side index pairIndex,
        CutMade ops world graph names w e side index pairIndex
  · obtain ⟨w, e, side, index, pairIndex, cut⟩ := someCut
    obtain ⟨same, isSame, completes, stops⟩ := cut.returns invariant first enough unused
    rw [returned, Except.ok.injEq, some.injEq] at isSame
    subst isSame
    by_cases complete : Completes (cutLink world.bricks w side index e pairIndex) w e names
          westSlot eastSlot
    · obtain ⟨made, qw, isQw, qe, isQe, done⟩ := completes complete
      have sameEast : made = east := by
        rw [done.returned, some.injEq] at isEast
        exact isEast
      subst sameEast
      exact ⟨w, e, side, index, pairIndex, qw, isQw, qe, isQe, cut, done⟩
    · rw [(stops complete).1] at isEast
      cases isEast
  · push Not at someCut
    obtain ⟨same, isSame, noEast, _⟩ :=
      pgGraphSplit_of_uncut first rounds invariant someCut westSlot eastSlot
    rw [returned, Except.ok.injEq, some.injEq] at isSame
    rw [isSame, noEast] at isEast
    cases isEast

end Outcome

end PacketGraph
