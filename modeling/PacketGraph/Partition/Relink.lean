import PacketGraph.Partition.Links

namespace PacketGraph

open Components Function List Option PartialMatching

/-!
# Replacing a link by two queues

The first two stages of `pg_graph_split`.  `pg_brick_unlink_edge` breaks the
first link that it finds, and the queues that are made afterwards are linked
to the bricks that were at its ends.  Once the link is broken, the queues are
linked unless one of them cannot be made or the east brick has no free place
on its west side.
-/

variable {ι σ : Type}

section Edge

variable [DecidableEq ι]

/-- The side, the index and the pair index of the link that is broken. -/
def edgeToCut (bricks : ι → Brick ι) (w e : ι) : Option (Side × Nat × Nat) :=
  match findEastEdge (bricks w) e (List.range (getSide (bricks w) .east).max)
  with
  | .ok (some place) =>
    (pgBrickGetEdge (bricks w) .east place).map (fun edge =>
        ((bricks w).linkSide .east, (bricks w).storageIndex place, edge.pairIndex))
  | _ => none

variable {graph : Graph ι σ} {w e : ι}

/-- Nothing is broken when no link is found. -/
theorem pgBrickUnlinkEdge_of_none (ops : BrickOps ι σ) (nothing : edgeToCut graph.brick w e = none)
    : ∃ failure, pgBrickUnlinkEdge ops graph (some w) (some e) = .ok (some failure, graph) := by
  unfold edgeToCut at nothing
  unfold pgBrickUnlinkEdge
  dsimp only
  split
  · exact ⟨_, rfl⟩
  · exact ⟨_, rfl⟩
  · rename_i place found
    obtain ⟨pairIndex, read⟩ := findEastEdge_eq_some found
    simp [found, read] at nothing

section Found

variable {side : Side} {index pairIndex : Nat}

theorem linkAt_of_edgeToCut {bricks : ι → Brick ι}
    (isCut : edgeToCut bricks w e = some (side, index, pairIndex)) :
    (bricks w).linkAt side index = some (e, pairIndex) ∧
      (bricks w).storageSide .east = (bricks w).storageSide side := by
  unfold edgeToCut at isCut
  split at isCut
  · rename_i place found
    obtain ⟨foundPair, read⟩ := findEastEdge_eq_some found
    rw [read, map_some, some.injEq, Prod.mk.injEq, Prod.mk.injEq] at isCut
    obtain ⟨rfl, rfl, rfl⟩ := isCut
    refine ⟨linkAt_of_getEdge read, ?_⟩
    unfold Brick.linkSide Brick.storageSide
    split <;> rfl
  · exact absurd isCut (by simp)

/-- The link that is found is broken. -/
theorem pgBrickUnlinkEdge_of_some [Fintype ι] (ops : BrickOps ι σ)
    (invariant : LinkInvariant graph.brick)
    (isCut : edgeToCut graph.brick w e = some (side, index, pairIndex)) :
    pgBrickUnlinkEdge ops graph (some w) (some e) =
      breakLink ops graph w side index e pairIndex := by
  unfold edgeToCut at isCut
  unfold pgBrickUnlinkEdge
  dsimp only
  split at isCut
  · rename_i place found
    obtain ⟨foundPair, read⟩ := findEastEdge_eq_some found
    rw [read, map_some, some.injEq, Prod.mk.injEq, Prod.mk.injEq] at isCut
    obtain ⟨rfl, rfl, rfl⟩ := isCut
    rw [found]
    exact doUnlink_of_linked ops invariant read
  · exact absurd isCut (by simp)

end Found

/-- A link among the searched edges is found when all of them exist. -/
theorem findEastEdge_finds {west : Brick ι} {east : ι} {indices : List Nat}
    (exist : ∀ index ∈ indices, ∃ edge, pgBrickGetEdge west .east index = some edge)
    {index pairIndex : Nat} (searched : index ∈ indices)
    (linked : pgBrickGetEdge west .east index = some ⟨some east, pairIndex⟩) :
    ∃ place, findEastEdge west east indices = .ok (some place) := by
  induction indices with
  | nil => exact absurd searched not_mem_nil
  | cons head rest ih =>
    obtain ⟨edge, read⟩ := exist head mem_cons_self
    unfold findEastEdge
    rw [read]
    by_cases isLink : edge.link = some east
    · exact ⟨head, by simp [isLink]⟩
    · simp only [isLink, ↓reduceIte]
      refine ih (fun index member => exist index (mem_cons_of_mem _ member)) ?_
      rcases mem_cons.mp searched with rfl | later
      · rw [read, some.injEq] at linked
        subst linked
        exact absurd rfl isLink
      · exact later

/-- A link on the east side of a brick is found. -/
theorem edgeToCut_of_linked {bricks : ι → Brick ι} (counted : WellCounted (bricks w))
    {index pairIndex : Nat} (linked : (bricks w).linkAt .east index = some (e, pairIndex)) :
    ∃ place pairPlace, edgeToCut bricks w e = some (.east, place, pairPlace) := by
  obtain ⟨⟨named, sided⟩, read⟩ := linkAt_eq_some_iff.mp linked
  have size := counted.storage ((bricks w).storageSide .east)
  have exist (place : Nat) (member : place ∈ List.range (getSide (bricks w) .east).max) :
      ∃ edge, pgBrickGetEdge (bricks w) .east place = some edge := by
    rw [mem_range, getSide_eq] at member
    rw [pgBrickGetEdge_eq]
    refine ⟨_, List.getElem?_eq_getElem ?_⟩
    unfold Brick.stored Brick.storageIndex
    rw [size]
    split
    · exact member
    · exact Nat.zero_lt_one
  have searched : index ∈ List.range (getSide (bricks w) .east).max := by
    rw [mem_range, getSide_eq]
    rw [pgBrickGetEdge_eq] at read
    rcases named with isMultipole | isZero
    · have below := (List.getElem?_eq_some_iff.mp read).1
      unfold Brick.stored Brick.storageIndex at below
      rw [if_pos isMultipole, size, if_pos isMultipole] at below
      exact below
    · -- the side counts the link, so its bound is not zero
      have positive : 0 < linkCount ((bricks w).stored .east) :=
        countP_pos_iff.mpr ⟨_, mem_of_getElem? read, rfl⟩
      have count := counted.count ((bricks w).storageSide .east)
      have room := counted.room ((bricks w).storageSide .east)
      unfold Brick.stored at positive
      omega
  obtain ⟨place, found⟩ := findEastEdge_finds exist searched read
  obtain ⟨pairPlace, readPlace⟩ := findEastEdge_eq_some found
  have onEast : (bricks w).linkSide .east = .east := by
    unfold Brick.linkSide
    split
    · rename_i isMonopole
      exact (sided isMonopole).symm
    · rfl
  refine ⟨(bricks w).storageIndex place, pairPlace, ?_⟩
  unfold edgeToCut
  rw [found]
  simp [readPlace, onEast]

end Edge

section Relink

variable [DecidableEq ι]

/-- The brick that `pg_queue_new` makes. -/
def queueBrick (ι : Type) (name : String) : Brick ι where
  type := .monopole
  name := name
  refcount := 1
  released := 0
  output := .west
  west := { max := 1, nb := 0, edges := [.empty] }
  east := { max := 1, nb := 0, edges := [.empty] }

omit [DecidableEq ι] in
theorem fresh_queueBrick (name : String) : Fresh (queueBrick ι name) :=
  pgBrickNew_fresh (show pgBrickNew [queueEntry (some ())] (some "queue")
          (some (queueConfig name)) = .ok (queueBrick ι name, ()) from rfl)

/-- Two unlinked addresses beside the two bricks that are to be linked. -/
structure QueuePlaces (bricks : ι → Brick ι) (w e qw qe : ι) : Prop where
  westUnlinked : ∀ side index, (bricks qw).linkAt side index = none
  eastUnlinked : ∀ side index, (bricks qe).linkAt side index = none
  bricksDiffer : w ≠ e
  queuesDiffer : qw ≠ qe
  westNotWest : w ≠ qw
  westNotEast : w ≠ qe
  eastNotWest : e ≠ qw
  eastNotEast : e ≠ qe

/-- What linking two bricks through two new queues leaves. -/
structure Relinked (names : SplitNames) (before after : World ι σ) (w e qw qe : ι) : Prop where
  adjacent : Adjacent after.bricks = addEdge (addEdge (Adjacent before.bricks) w qw) qe e
  links : ∀ west east, eastLinks after.bricks west east = eastLinks before.bricks west east +
          (if west = w ∧ east = qw then 1 else 0) + (if west = qe ∧ east = e then 1 else 0)
  named : ∀ brick, (after.bricks brick).name = if brick = qe then names.eastQueue
        else if brick = qw then names.westQueue
        else (before.bricks brick).name
  refcount : ∀ brick, brick ≠ qw → brick ≠ qe → (after.bricks brick).refcount =
        (before.bricks brick).refcount + (if brick = w then 1 else 0) + (if brick = e then 1 else 0)
  ports : ∃ westIndex eastIndex, peer before.bricks (w, .east, westIndex) = none ∧
        peer before.bricks (e, .west, eastIndex) = none ∧ peer after.bricks = join
            (join (peer before.bricks) (w, .east, westIndex) (qw, .west, 0))
            (qe, .east, 0) (e, .west, eastIndex)
  single : (after.bricks qw).type = .monopole ∧ (after.bricks qe).type = .monopole
  polls : after.polls = update (update before.polls qw true) qe true
  isQueue : after.isQueue = update (update before.isQueue qw true) qe true
  friend : after.friend = update (update before.friend qw (some qe)) qe (some qw)

/-- The bricks once both queues were made. -/
def withQueues (bricks : ι → Brick ι) (names : SplitNames) (qw qe : ι) : ι → Brick ι :=
  update (update bricks qw (queueBrick ι names.westQueue)) qe (queueBrick ι names.eastQueue)

/-- The world once both queues were made. -/
def World.withQueues (world : World ι σ) (names : SplitNames) (qw qe : ι) (pw pe : σ) : World ι σ :=
  (world.addQueue qw (queueBrick ι names.westQueue) pw).addQueue qe
    (queueBrick ι names.eastQueue) pe

section Made

variable {bricks : ι → Brick ι} {names : SplitNames} {w e qw qe : ι}
  (places : QueuePlaces bricks w e qw qe)

include places

/-- Making the first queue leaves the second address unlinked. -/
theorem QueuePlaces.still_unlinked (side : Side) (index : Nat) :
    (update bricks qw (queueBrick ι names.westQueue) qe).linkAt side index =
      none := by
  rw [linkAt_renew places.westUnlinked (fresh_queueBrick _)]
  exact places.eastUnlinked side index

theorem QueuePlaces.linkAt_made (brick : ι) (side : Side) (index : Nat) :
    (withQueues bricks names qw qe brick).linkAt side index = (bricks brick).linkAt side index := by
  unfold withQueues
  rw [linkAt_renew places.still_unlinked (fresh_queueBrick _),
    linkAt_renew places.westUnlinked (fresh_queueBrick _)]

theorem QueuePlaces.adjacent_made : Adjacent (withQueues bricks names qw qe) = Adjacent bricks := by
  funext brick other
  unfold Adjacent
  simp only [places.linkAt_made]

theorem QueuePlaces.eastLinks_made (west east : ι) :
    eastLinks (withQueues bricks names qw qe) west east = eastLinks bricks west east := by
  unfold withQueues
  rw [eastLinks_renew places.still_unlinked (fresh_queueBrick _),
    eastLinks_renew places.westUnlinked (fresh_queueBrick _)]

theorem QueuePlaces.invariant_made [Fintype ι] (invariant : LinkInvariant bricks) :
    LinkInvariant (withQueues bricks names qw qe) := by
  exact (invariant.renew places.westUnlinked (fresh_queueBrick _)).renew
    places.still_unlinked (fresh_queueBrick _)

theorem QueuePlaces.made_west : withQueues bricks names qw qe w = bricks w := by
  unfold withQueues
  rw [update_of_ne places.westNotEast, update_of_ne places.westNotWest]

theorem QueuePlaces.made_east : withQueues bricks names qw qe e = bricks e := by
  unfold withQueues
  rw [update_of_ne places.eastNotEast, update_of_ne places.eastNotWest]

theorem QueuePlaces.made_westQueue :
    withQueues bricks names qw qe qw = queueBrick ι names.westQueue := by
  unfold withQueues
  rw [update_of_ne places.queuesDiffer, update_self]

/-- Linking the west brick to its queue does not touch the east brick. -/
theorem QueuePlaces.joined_east (index : Nat) :
    joinLink (withQueues bricks names qw qe) w index qw 0 e = bricks e := by
  unfold joinLink
  rw [update_of_ne places.bricksDiffer.symm, update_of_ne places.eastNotWest]
  exact places.made_east

omit places in
theorem made_eastQueue : withQueues bricks names qw qe qe = queueBrick ι names.eastQueue :=
  update_self ..

end Made

/-- The calls that follow once both queues were made. -/
theorem relinkThroughQueues_made (world : World ι σ) (w e : Option ι) (names : SplitNames)
    (qw qe : ι) (pw pe : σ) :
    relinkThroughQueues world w e names (some (qw, pw)) (some (qe, pe)) = match
        pgBrickLink (world.withQueues names qw qe pw pe).links w (some qw)
      with
      | .error failure => .error failure
      | .ok (some failure, links) =>
        .ok (.error failure, (world.withQueues names qw qe pw pe).withLinks links)
      | .ok (none, links) =>
        match pgBrickLink links (some qe) e with
        | .error failure => .error failure
        | .ok (some failure, links) =>
          .ok (.error failure, (world.withQueues names qw qe pw pe).withLinks links)
        | .ok (none, links) =>
          match pgQueueFriend ((world.withQueues names qw qe pw pe).withLinks links) qw qe
          with
          | (some failure, world) => .ok (.error failure, world)
          | (none, world) => .ok (.ok (qw, qe), world) :=
  rfl

/-- A brick without a free place on its west side is not linked. -/
theorem pgBrickLink_of_full (graph : Graph ι σ) {west east : ι} (distinct : west ≠ east)
    (full : ¬ isPlaceAvailable (graph.brick east) .west = true) :
    ∃ failure, pgBrickLink graph (some west) (some east) = .ok (some failure, graph) := by
  unfold pgBrickLink
  dsimp only
  rw [if_neg distinct, if_pos full]
  exact ⟨_, rfl⟩

section Links

variable [Fintype ι] {world : World ι σ} {names : SplitNames} {w e qw qe : ι} {pw pe : σ}

/-- The west brick is linked to its queue. -/
theorem QueuePlaces.link_westQueue (places : QueuePlaces world.bricks w e qw qe)
    (invariant : LinkInvariant world.bricks) (room : isPlaceAvailable (world.bricks w) .east = true)
    (names : SplitNames) (priv : ι → σ) :
    ∃ index, FreeSlot (withQueues world.bricks names qw qe w) .east index ∧
        FreeSlot (withQueues world.bricks names qw qe qw) .west 0 ∧
        pgBrickLink ⟨withQueues world.bricks names qw qe, priv⟩ (some w) (some qw) =
          .ok (none, ⟨joinLink (withQueues world.bricks names qw qe) w index qw 0, priv⟩) ∧
        LinkInvariant (joinLink (withQueues world.bricks names qw qe) w index qw 0) := by
  let graph : Graph ι σ := ⟨withQueues world.bricks names qw qe, priv⟩
  have made : LinkInvariant graph.brick := places.invariant_made invariant
  have isQueue : graph.brick qw = queueBrick ι names.westQueue := places.made_westQueue
  have westRoom : isPlaceAvailable (graph.brick w) .east = true := by
    rw [show graph.brick w = world.bricks w from places.made_west]
    exact room
  have queueRoom : isPlaceAvailable (graph.brick qw) .west = true := by
    rw [isQueue]
    rfl
  obtain ⟨index, queueIndex, westFree, queueFree, returned, joined⟩ :=
    made.link places.westNotWest westRoom queueRoom
  have onlyPlace : queueIndex = 0 := by
    refine queueFree.index_eq_zero ?_
    rw [isQueue]
    exact BrickType.noConfusion
  subst onlyPlace
  exact ⟨index, westFree, queueFree, returned, joined⟩

/-- The world once both queues were linked and made friends. -/
def World.joinedThrough (world : World ι σ) (names : SplitNames) (w e qw qe : ι) (pw pe : σ)
    (westIndex eastIndex : Nat) : World ι σ :=
  let both := world.withQueues names qw qe pw pe
  { both with
    links :=
      { both.links with
        brick :=
          joinLink (joinLink (PacketGraph.withQueues world.bricks names qw qe) w westIndex qw 0)
            qe 0 e eastIndex }
    friend :=
      update (update both.friend qw (some qe)) qe (some qw) }

/-- Joining free places links two bricks through two queues. -/
theorem QueuePlaces.relinked (places : QueuePlaces world.bricks w e qw qe)
    {westIndex eastIndex : Nat}
    (made : LinkInvariant (withQueues world.bricks names qw qe))
    (joined : LinkInvariant (joinLink (withQueues world.bricks names qw qe) w westIndex qw 0))
    (westFree : FreeSlot (withQueues world.bricks names qw qe w) .east westIndex)
    (westQueueFree : FreeSlot (withQueues world.bricks names qw qe qw) .west 0)
    (eastQueueFree : FreeSlot (joinLink (withQueues world.bricks names qw qe) w westIndex qw 0 qe)
        .east 0)
    (eastFree : FreeSlot (joinLink (withQueues world.bricks names qw qe) w westIndex qw 0 e) .west
        eastIndex) :
    Relinked names world (world.joinedThrough names w e qw qe pw pe westIndex eastIndex)
      w e qw qe where
  adjacent := by
    refine (adjacent_joinLink places.eastNotEast.symm eastQueueFree eastFree).trans ?_
    rw [adjacent_joinLink places.westNotWest westFree westQueueFree, places.adjacent_made]
  links := by
    intro west east
    refine (eastLinks_joinLink (joined.counted qe) places.eastNotEast.symm
      eastQueueFree eastFree west east).trans ?_
    rw [eastLinks_joinLink (made.counted w) places.westNotWest westFree
      westQueueFree, places.eastLinks_made]
  named := by
    intro brick
    refine (name_joinLink _ qe 0 e eastIndex brick).trans ?_
    rw [name_joinLink]
    unfold withQueues
    rw [update_apply, update_apply]
    split
    · rfl
    · split <;> rfl
  refcount := by
    intro brick notWest notEast
    refine (refcount_joinLink _ places.eastNotEast.symm 0 eastIndex brick).trans ?_
    rw [refcount_joinLink _ places.westNotWest]
    unfold withQueues
    rw [update_of_ne notEast, update_of_ne notWest, if_neg notWest, if_neg notEast]
    omega
  ports := by
    have samePeers : peer (withQueues world.bricks names qw qe) = peer world.bricks := by
      funext port
      unfold peer
      rw [places.linkAt_made]
    refine ⟨westIndex, eastIndex, ?_, ?_, ?_⟩
    · rw [← samePeers]
      unfold peer
      rw [westFree.linkAt_eq_none, map_none]
    · have free := eastFree.linkAt_eq_none
      rw [places.joined_east] at free
      unfold peer
      rw [free, map_none]
    · refine (peer_joinLink places.eastNotEast.symm eastQueueFree eastFree).trans ?_
      rw [peer_joinLink places.westNotWest westFree westQueueFree, samePeers]
  single := by
    refine ⟨(type_joinLink _ qe 0 e eastIndex qw).trans ?_,
      (type_joinLink _ qe 0 e eastIndex qe).trans ?_⟩
    · rw [type_joinLink, places.made_westQueue]
      rfl
    · rw [type_joinLink, made_eastQueue]
      rfl
  polls := rfl
  isQueue := rfl
  friend := by
    show update (update (update (update world.friend qw none) qe none) qw (some qe))
          qe (some qw) = _
    rw [update_comm places.queuesDiffer.symm, update_idem, update_idem]

/-- Two bricks with free places are linked through two new queues. -/
theorem relinkThroughQueues_eq (places : QueuePlaces world.bricks w e qw qe)
    (invariant : LinkInvariant world.bricks)
    (westRoom : isPlaceAvailable (world.bricks w) .east = true)
    (eastRoom : isPlaceAvailable (world.bricks e) .west = true) (names : SplitNames) (pw pe : σ) :
    ∃ after, relinkThroughQueues world (some w) (some e) names (some (qw, pw)) (some (qe, pe)) =
          .ok (.ok (qw, qe), after) ∧
        LinkInvariant after.bricks ∧
        Relinked names world after w e qw qe := by
  let both := world.withQueues names qw qe pw pe
  let made := withQueues world.bricks names qw qe
  have madeInvariant : LinkInvariant made := places.invariant_made invariant
  obtain ⟨westIndex, westFree, westQueueFree, firstLink, joinedInvariant⟩ :=
    places.link_westQueue invariant westRoom names both.links.priv
  let joined : Graph ι σ := ⟨joinLink made w westIndex qw 0, both.links.priv⟩
  have joinedEast : joined.brick e = world.bricks e := places.joined_east westIndex
  have joinedQueue : joined.brick qe = queueBrick ι names.eastQueue := by
    show joinLink made w westIndex qw 0 qe = _
    unfold joinLink
    rw [update_of_ne places.westNotEast.symm, update_of_ne places.queuesDiffer.symm]
    exact made_eastQueue
  have queueRoom : isPlaceAvailable (joined.brick qe) .east = true := by
    rw [joinedQueue]
    rfl
  obtain ⟨queueIndex, eastIndex, eastQueueFree, eastFree, secondLink, finalInvariant⟩ :=
    LinkInvariant.link joinedInvariant places.eastNotEast.symm queueRoom (joinedEast ▸ eastRoom)
  have onlyPlace : queueIndex = 0 := by
    refine eastQueueFree.index_eq_zero ?_
    rw [joinedQueue]
    exact BrickType.noConfusion
  subst onlyPlace
  refine ⟨world.joinedThrough names w e qw qe pw pe westIndex eastIndex, ?_, finalInvariant,
    places.relinked madeInvariant joinedInvariant westFree westQueueFree eastQueueFree eastFree⟩
  have noFriend : both.friend qw = none := by
    show update (update world.friend qw none) qe none qw = _
    rw [update_of_ne places.queuesDiffer, update_self]
  have noEastFriend : both.friend qe = none := update_self ..
  have befriend (links : Graph ι σ) : pgQueueFriend (both.withLinks links) qw qe = (none,
          { both.withLinks links with
            friend :=
              update (update both.friend qw (some qe)) qe (some qw) }) := by
    unfold pgQueueFriend World.withLinks
    simp [noFriend, noEastFriend]
  have isFirst : pgBrickLink both.links (some w) (some qw) = .ok (none, joined) := firstLink
  rw [relinkThroughQueues_made, isFirst]
  dsimp only
  rw [secondLink]
  dsimp only
  rw [befriend]
  rfl

/-- The addresses that the environment gives to new queues. -/
structure SlotPlaces (bricks : ι → Brick ι) (w e : ι) (westSlot eastSlot : Option (ι × σ)) :
    Prop where
  west : ∀ slot ∈ westSlot, ∀ side index, (bricks slot.1).linkAt side index = none
  both : ∀ qw ∈ westSlot, ∀ qe ∈ eastSlot, QueuePlaces bricks w e qw.1 qe.1

/--
When a queue cannot be made or the east brick has no room, the links between
the other bricks stay as the broken link left them.
-/
theorem relinkThroughQueues_fails {westSlot eastSlot : Option (ι × σ)}
    (places : SlotPlaces world.bricks w e westSlot eastSlot)
    (invariant : LinkInvariant world.bricks)
    (westRoom : isPlaceAvailable (world.bricks w) .east = true)
    (fails : westSlot = none ∨ eastSlot = none ∨ ¬ isPlaceAvailable (world.bricks e) .west = true)
    (names : SplitNames) :
    ∃ failure after, relinkThroughQueues world (some w) (some e) names westSlot eastSlot =
          .ok (.error failure, after) ∧
        ∀ west east, (∀ slot ∈ westSlot, east ≠ slot.1) →
          eastLinks after.bricks west east = eastLinks world.bricks west east := by
  rcases westSlot with _ | ⟨qw, pw⟩
  · exact ⟨_, world, rfl, fun _ _ _ => rfl⟩
  · rcases eastSlot with _ | ⟨qe, pe⟩
    · refine ⟨_, world.addQueue qw (queueBrick ι names.westQueue) pw, rfl, ?_⟩
      intro west east _
      exact eastLinks_renew (places.west (qw, pw) rfl) (fresh_queueBrick _) west east
    · have full : ¬ isPlaceAvailable (world.bricks e) .west = true := by
        rcases fails with absent | absent | full
        · cases absent
        · cases absent
        · exact full
      have queuePlaces := places.both (qw, pw) rfl (qe, pe) rfl
      let both := world.withQueues names qw qe pw pe
      have madeInvariant : LinkInvariant (withQueues world.bricks names qw qe) :=
        queuePlaces.invariant_made invariant
      obtain ⟨westIndex, westFree, queueFree, firstLink, _⟩ :=
        queuePlaces.link_westQueue invariant westRoom names both.links.priv
      let joined : Graph ι σ :=
        ⟨joinLink (withQueues world.bricks names qw qe) w westIndex qw 0, both.links.priv⟩
      have joinedEast : joined.brick e = world.bricks e := queuePlaces.joined_east westIndex
      obtain ⟨failure, secondLink⟩ :=
        pgBrickLink_of_full joined queuePlaces.eastNotEast.symm (joinedEast.symm ▸ full)
      refine ⟨failure, both.withLinks joined, ?_, ?_⟩
      · have isFirst : pgBrickLink both.links (some w) (some qw) = .ok (none, joined) := firstLink
        rw [relinkThroughQueues_made, isFirst]
        dsimp only
        rw [secondLink]
      · intro west east isOld
        refine (eastLinks_joinLink (madeInvariant.counted w)
          queuePlaces.westNotWest westFree queueFree west east).trans ?_
        rw [if_neg (fun gained => isOld (qw, pw) rfl gained.2), Nat.add_zero,
          queuePlaces.eastLinks_made]

end Links

end Relink

end PacketGraph
