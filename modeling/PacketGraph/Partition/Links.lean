import PacketGraph.Lib.Components
import PacketGraph.Partition.World

namespace PacketGraph

open Components Function PartialMatching

/-!
# Links and components when a link is made or broken

Making a link adds one edge to the adjacency of bricks and one to the number
of links between two of them; breaking a link takes them away.  An address
that is not linked can be given to a new brick.
-/

variable {ι σ : Type}

section Ports

/-- The link of a brick is read off its port. -/
theorem linkAt_eq_peer (bricks : ι → Brick ι) (brick : ι) (side : Side) (index : Nat) :
    (bricks brick).linkAt side index = (peer bricks (brick, side, index)).map
        (fun port => (port.1, port.2.2)) := by
  unfold peer
  cases (bricks brick).linkAt side index <;> rfl

variable [DecidableEq ι] {bricks : ι → Brick ι}

section Join

variable {west east : ι} {westIndex eastIndex : Nat}

section

variable (distinct : west ≠ east) (westFree : FreeSlot (bricks west) .east westIndex)
  (eastFree : FreeSlot (bricks east) .west eastIndex)

include distinct westFree eastFree

/-- The links after two free edges were joined. -/
theorem linkAt_joinLink (brick : ι) (side : Side) (index : Nat) :
    (joinLink bricks west westIndex east eastIndex brick).linkAt side index =
      if (brick, side, index) = (east, Side.west, eastIndex) then
        some (west, westIndex)
      else if (brick, side, index) = (west, Side.east, westIndex) then
        some (east, eastIndex)
      else
        (bricks brick).linkAt side index := by
  rw [linkAt_eq_peer, peer_joinLink distinct westFree eastFree, join_apply]
  split
  · rfl
  · split
    · rfl
    · rw [← linkAt_eq_peer]

/-- Making a link makes its ends adjacent. -/
theorem adjacent_joinLink :
    Adjacent (joinLink bricks west westIndex east eastIndex) =
      addEdge (Adjacent bricks) west east := by
  have read := linkAt_joinLink distinct westFree eastFree
  funext brick other
  refine propext ⟨?_, ?_⟩
  · rintro ⟨side, index, pairIndex, linked⟩
    rw [read] at linked
    split at linked
    · rename_i isEast
      cases isEast
      cases linked
      exact .inr (.inr ⟨rfl, rfl⟩)
    · split at linked
      · rename_i isWest
        cases isWest
        cases linked
        exact .inr (.inl ⟨rfl, rfl⟩)
      · exact .inl ⟨side, index, pairIndex, linked⟩
  · rintro (⟨side, index, pairIndex, linked⟩ | ⟨rfl, rfl⟩ | ⟨rfl, rfl⟩)
    · refine ⟨side, index, pairIndex, ?_⟩
      rw [read, if_neg, if_neg]
      · exact linked
      · rintro ⟨⟩
        rw [westFree.linkAt_eq_none] at linked
        cases linked
      · rintro ⟨⟩
        rw [eastFree.linkAt_eq_none] at linked
        cases linked
    · refine ⟨.east, westIndex, eastIndex, ?_⟩
      rw [read, if_neg (by simp [distinct]), if_pos rfl]
    · exact ⟨.west, eastIndex, westIndex, by rw [read, if_pos rfl]⟩

end

end Join

section Cut

variable {target paired : ι} {side : Side} {index pairIndex : Nat}

/-- A link is cut from either of its ends. -/
theorem cutLink_swap (bricks : ι → Brick ι) (distinct : target ≠ paired)
    (side : Side) (index pairIndex : Nat) :
    cutLink bricks target side index paired pairIndex =
      cutLink bricks paired (pgFlipSide side) pairIndex target index := by
  unfold cutLink
  rw [pgFlipSide_pgFlipSide, update_comm distinct]

variable [Fintype ι]

section

variable (invariant : LinkInvariant bricks)
  (linked : (bricks target).linkAt side index = some (paired, pairIndex))

include invariant linked

/-- The links after one of them was cut. -/
theorem linkAt_cutLink (brick : ι) (otherSide : Side) (otherIndex : Nat) :
    (cutLink bricks target side index paired pairIndex brick).linkAt otherSide otherIndex =
      if (brick, otherSide, otherIndex) = (paired, pgFlipSide side, pairIndex) then
        none
      else if (brick, otherSide, otherIndex) = (target, side, index) then
        none
      else
        (bricks brick).linkAt otherSide otherIndex := by
  rw [linkAt_eq_peer, peer_cutLink (invariant.ne_of_linkAt linked) linked
      (invariant.back linked), cut_apply]
  split
  · rfl
  · split
    · rfl
    · rw [← linkAt_eq_peer]

/-- Before a link was cut, its ends were adjacent. -/
theorem adjacent_cutLink :
    Adjacent bricks = addEdge (Adjacent (cutLink bricks target side index paired pairIndex))
        target paired := by
  have read := linkAt_cutLink invariant linked
  have back := invariant.back linked
  funext brick other
  refine propext ⟨?_, ?_⟩
  · rintro ⟨otherSide, otherIndex, otherPair, present⟩
    by_cases isPaired : (brick, otherSide, otherIndex) = (paired, pgFlipSide side, pairIndex)
    · cases isPaired
      rw [back] at present
      cases present
      exact .inr (.inr ⟨rfl, rfl⟩)
    · by_cases isTarget : (brick, otherSide, otherIndex) = (target, side, index)
      · cases isTarget
        rw [linked] at present
        cases present
        exact .inr (.inl ⟨rfl, rfl⟩)
      · refine .inl ⟨otherSide, otherIndex, otherPair, ?_⟩
        rw [read, if_neg isPaired, if_neg isTarget]
        exact present
  · rintro (⟨otherSide, otherIndex, otherPair, present⟩ | ⟨rfl, rfl⟩ | ⟨rfl, rfl⟩)
    · rw [read] at present
      split at present
      · cases present
      · split at present
        · cases present
        · exact ⟨otherSide, otherIndex, otherPair, present⟩
    · exact ⟨side, index, pairIndex, linked⟩
    · exact ⟨_, _, _, back⟩

end

end Cut

end Ports

section Count

section

variable (other : Side) (brick : Brick ι) (side : Side) (index : Nat)

theorem max_attach (target : ι) (pairIndex : Nat) :
    ((attach brick side index target pairIndex).sides other).max = (brick.sides other).max := by
  rw [sides_attach]
  split <;> rfl

theorem max_detach : ((detach brick side index).sides other).max = (brick.sides other).max := by
  rw [sides_detach]
  split <;> rfl

end

variable [DecidableEq ι] {bricks : ι → Brick ι}

/-- One more place satisfies a condition that was changed at one place. -/
private theorem card_filter_gain {places : Finset Nat} {before after : Nat → Prop}
    [DecidablePred before] [DecidablePred after] (place : Nat) (member : place ∈ places)
    (absent : ¬ before place) (present : after place)
    (others : ∀ other, other ≠ place → (after other ↔ before other)) :
    (places.filter after).card = (places.filter before).card + 1 := by
  have isInsert : places.filter after = insert place (places.filter before) := by
    ext other
    simp only [Finset.mem_filter, Finset.mem_insert]
    by_cases same : other = place
    · subst same
      simp [member, present]
    · rw [others other same]
      simp [same]
  rw [isInsert, Finset.card_insert_of_notMem]
  simp [absent]

theorem type_joinLink (bricks : ι → Brick ι)
    (west : ι) (westIndex : Nat) (east : ι) (eastIndex : Nat) (brick : ι) :
    (joinLink bricks west westIndex east eastIndex brick).type = (bricks brick).type :=
  apply_joinLink Brick.type type_attach bricks west westIndex east eastIndex brick

theorem type_cutLink (bricks : ι → Brick ι)
    (target : ι) (side : Side) (index : Nat) (paired : ι) (pairIndex : Nat) (brick : ι) :
    (cutLink bricks target side index paired pairIndex brick).type = (bricks brick).type :=
  apply_cutLink Brick.type type_detach bricks target side index paired pairIndex brick

variable {west east : ι} {westIndex eastIndex : Nat}

/-- Making a link adds one link between its ends. -/
theorem eastLinks_joinLink (counted : WellCounted (bricks west)) (distinct : west ≠ east)
    (westFree : FreeSlot (bricks west) .east westIndex)
    (eastFree : FreeSlot (bricks east) .west eastIndex) (brick other : ι) :
    eastLinks (joinLink bricks west westIndex east eastIndex) brick other =
      eastLinks bricks brick other + if brick = west ∧ other = east then 1 else 0 := by
  have read := linkAt_joinLink distinct westFree eastFree
  have sameMax : (joinLink bricks west westIndex east eastIndex brick).east.max =
        (bricks brick).east.max :=
    apply_joinLink (fun brick => brick.east.max) (max_attach .east)
      bricks west westIndex east eastIndex brick
  have isRead (place : Nat) : (joinLink bricks west westIndex east eastIndex brick).linkAt .east
          place = if brick = west ∧ place = westIndex then
          some (east, eastIndex)
        else
          (bricks brick).linkAt .east place := by
    rw [read]
    simp
  unfold eastLinks
  rw [sameMax]
  simp only [isRead]
  by_cases gains : brick = west ∧ other = east
  · obtain ⟨rfl, rfl⟩ := gains
    obtain ⟨edge, stored, _⟩ := westFree.free
    rw [if_pos ⟨rfl, rfl⟩]
    refine card_filter_gain westIndex ?_ ?_ ?_ ?_
    · exact Finset.mem_range.mpr (counted.index_lt westFree.named stored)
    · simp [westFree.linkAt_eq_none]
    · simp
    · intro place differs
      simp [differs]
  · rw [if_neg gains, Nat.add_zero]
    congr 1
    refine Finset.filter_congr (fun place _ => ?_)
    by_cases here : brick = west ∧ place = westIndex
    · obtain ⟨rfl, rfl⟩ := here
      have differs : east ≠ other := fun same => gains ⟨rfl, same.symm⟩
      simp [westFree.linkAt_eq_none, differs]
    · rw [if_neg here]

variable [Fintype ι]

/-- Breaking a link takes one link between its ends away. -/
theorem eastLinks_cutLink (invariant : LinkInvariant bricks)
    (linked : (bricks west).linkAt .east westIndex = some (east, eastIndex)) (brick other : ι) :
    eastLinks (cutLink bricks west .east westIndex east eastIndex) brick other +
        (if brick = west ∧ other = east then 1 else 0) =
      eastLinks bricks brick other := by
  have read := linkAt_cutLink invariant linked
  have sameMax : (cutLink bricks west .east westIndex east eastIndex brick).east.max =
        (bricks brick).east.max :=
    apply_cutLink (fun brick => brick.east.max) (max_detach .east)
      bricks west .east westIndex east eastIndex brick
  have isRead (place : Nat) :
      (cutLink bricks west .east westIndex east eastIndex brick).linkAt .east place =
        if brick = west ∧ place = westIndex then
          none
        else
          (bricks brick).linkAt .east place := by
    rw [read]
    simp [pgFlipSide]
  unfold eastLinks
  rw [sameMax]
  simp only [isRead]
  by_cases loses : brick = west ∧ other = east
  · obtain ⟨rfl, rfl⟩ := loses
    obtain ⟨⟨named, _⟩, stored⟩ := linkAt_eq_some_iff.mp linked
    rw [if_pos ⟨rfl, rfl⟩]
    refine (card_filter_gain westIndex ?_ ?_ ?_ ?_).symm
    · exact Finset.mem_range.mpr ((invariant.counted brick).index_lt named stored)
    · simp
    · simp [linked]
    · intro place differs
      simp [differs]
  · rw [if_neg loses, Nat.add_zero]
    congr 1
    refine Finset.filter_congr (fun place _ => ?_)
    by_cases here : brick = west ∧ place = westIndex
    · obtain ⟨rfl, rfl⟩ := here
      have differs : east ≠ other := fun same => loses ⟨rfl, same.symm⟩
      simp [linked, differs]
    · rw [if_neg here]

end Count

section References

variable [DecidableEq ι]

/-- Making a link takes a reference on each of its ends. -/
theorem refcount_joinLink (bricks : ι → Brick ι) {west east : ι} (distinct : west ≠ east)
    (westIndex eastIndex : Nat) (brick : ι) :
    (joinLink bricks west westIndex east eastIndex brick).refcount = (bricks brick).refcount +
        (if brick = west then 1 else 0) + (if brick = east then 1 else 0) := by
  simp only [joinLink, update_apply]
  split
  · rename_i isWest
    subst isWest
    simp [distinct]
  · split
    · rename_i isEast
      subst isEast
      simp
    · simp

/-- Breaking a link drops a reference on each of its ends. -/
theorem refcount_cutLink (bricks : ι → Brick ι) {target paired : ι} (distinct : target ≠ paired)
    (side : Side) (index pairIndex : Nat) (brick : ι) :
    (cutLink bricks target side index paired pairIndex brick).refcount +
        (if brick = target then 1 else 0) + (if brick = paired then 1 else 0) =
      (bricks brick).refcount := by
  simp only [cutLink, update_apply]
  split
  · rename_i isPaired
    subst isPaired
    simp [distinct.symm]
  · split
    · rename_i isTarget
      subst isTarget
      simp
    · simp

end References

variable {brick : Brick ι} {index : Nat}

/-- A place is available where a link was cut. -/
theorem WellCounted.room_detach (counted : WellCounted brick) {side other : Side} {link : ι × Nat}
    (linked : brick.linkAt side index = some link)
    (shared : brick.storageSide other = brick.storageSide side) :
    isPlaceAvailable (PacketGraph.detach brick side index) other = true := by
  have sameStorage : (PacketGraph.detach brick side index).storageSide other =
        brick.storageSide side := by
    rw [← shared]
    unfold Brick.storageSide
    rw [type_detach]
  have lowered := counted.nb_detach linked (brick.storageSide side)
  rw [if_pos rfl] at lowered
  have room := counted.room (brick.storageSide side)
  rw [isPlaceAvailable_eq, getSide_eq, sameStorage, max_detach]
  exact decide_eq_true (by omega)

theorem FreeSlot.index_eq_zero {side : Side} (free : FreeSlot brick side index)
    (single : brick.type ≠ .multipole) : index = 0 :=
  free.named.resolve_left single

/-- Two bricks with room for it are linked. -/
theorem LinkInvariant.link [DecidableEq ι] [Fintype ι] {graph : Graph ι σ}
    (invariant : LinkInvariant graph.brick) {west east : ι} (distinct : west ≠ east)
    (westRoom : isPlaceAvailable (graph.brick west) .east = true)
    (eastRoom : isPlaceAvailable (graph.brick east) .west = true) :
    ∃ westIndex eastIndex, FreeSlot (graph.brick west) .east westIndex ∧
        FreeSlot (graph.brick east) .west eastIndex ∧
        pgBrickLink graph (some west) (some east) = .ok (none, { graph with
              brick := joinLink graph.brick west westIndex east eastIndex }) ∧
        LinkInvariant (joinLink graph.brick west westIndex east eastIndex) := by
  obtain ⟨westIndex, eastIndex, westFree, eastFree, returned⟩ :=
    pgBrickLink_eq (invariant.counted west) (invariant.counted east) distinct westRoom eastRoom
  exact ⟨westIndex, eastIndex, westFree, eastFree, returned,
    invariant.join distinct westFree westRoom eastFree eastRoom⟩

section Renew

variable [DecidableEq ι] {bricks : ι → Brick ι} {address : ι} {brick : Brick ι}

section

variable (unlinked : ∀ side index, (bricks address).linkAt side index = none) (fresh : Fresh brick)

include unlinked fresh

/-- Giving an unlinked address to a new brick moves no link. -/
theorem linkAt_renew (other : ι) (side : Side) (index : Nat) :
    (update bricks address brick other).linkAt side index = (bricks other).linkAt side index := by
  by_cases here : other = address
  · subst here
    rw [update_self, fresh.linkAt_eq_none, unlinked]
  · rw [update_of_ne here]

theorem eastLinks_renew (west east : ι) :
    eastLinks (update bricks address brick) west east = eastLinks bricks west east := by
  unfold eastLinks
  simp only [linkAt_renew unlinked fresh]
  by_cases here : west = address
  · subst here
    simp [unlinked]
  · rw [update_of_ne here]

end

/-- A brick without a link links to no brick. -/
theorem WellCounted.linksCount_eq_zero (counted : WellCounted brick)
    (unlinked : ∀ side index, brick.linkAt side index = none) (target : ι) :
    pgBrickLinksCountGet brick target = 0 := by
  have bySide (side : Side) : countSide (brick.sides side) target = 0 := by
    unfold countSide
    rw [List.countP_eq_zero]
    intro edge stored isLink
    obtain ⟨otherSide, index, linked⟩ := counted.exists_linkAt stored (of_decide_eq_true isLink)
    rw [unlinked] at linked
    cases linked
  have west := bySide .west
  have east := bySide .east
  simp only [Brick.sides] at west east
  unfold pgBrickLinksCountGet Brick.side
  cases brick.type <;> simp [west, east]

variable [Fintype ι]

/-- Giving an unlinked address to a new brick keeps the link invariant. -/
theorem LinkInvariant.renew (invariant : LinkInvariant bricks)
    (unlinked : ∀ side index, (bricks address).linkAt side index = none) (fresh : Fresh brick) :
    LinkInvariant (update bricks address brick) := by
  have samePeers : peer (update bricks address brick) = peer bricks := by
    funext port
    unfold peer
    rw [linkAt_renew unlinked fresh]
  refine ⟨fun other => ?_, samePeers ▸ invariant.paired, fun other => ?_, fun other => ?_⟩
  · rw [update_apply]
    split
    · exact fresh.counted
    · exact invariant.counted other
  · rw [update_apply]
    split
    · exact fresh.linksCount_eq_zero other
    · exact invariant.loopless other
  · have moved := incoming_update bricks address brick other
    rw [(invariant.counted address).linksCount_eq_zero unlinked, fresh.linksCount_eq_zero] at moved
    have sameIncoming : incoming (update bricks address brick) other = incoming bricks other :=
      moved
    rw [sameIncoming, update_apply]
    split
    · rename_i here
      subst here
      rw [fresh.referenced, ← invariant.referenced other, invariant.refcount_of_unlinked unlinked]
    · exact invariant.referenced other

end Renew

end PacketGraph
