import PacketGraph.Brick.Storage
import PacketGraph.Lib.Matching
import PacketGraph.Lib.Reachability

namespace PacketGraph

/-!
# The representation invariant of the link graph

Abstractly a link graph is a partial matching between ports: a port is a
brick, a side and an index, and linked ports are each other's partners.  The
faithful model refines that view, since `pg_brick_link` joins two free ports
and `do_unlink` cuts a matched pair.  The counters and reference counts follow
the same two changes.
-/

open Function Option PartialMatching

variable {ι σ : Type} [DecidableEq ι]

/-- A place where a link can end. -/
abbrev Port (ι : Type) := ι × Side × Nat

/-- The port at the other end of the link of a port. -/
def peer (bricks : ι → Brick ι) (port : Port ι) : Option (Port ι) :=
  ((bricks port.1).linkAt port.2.1 port.2.2).map (fun link => (link.1, pgFlipSide port.2.1, link.2))

/-- The bricks after linking an east edge of `west` to a west edge of `east`. -/
def joinLink (bricks : ι → Brick ι) (west : ι) (westIndex : Nat) (east : ι) (eastIndex : Nat) :
    ι → Brick ι :=
  update (update bricks east (attach (bricks east) .west eastIndex west westIndex))
    west (attach (bricks west) .east westIndex east eastIndex)

/-- The bricks after breaking the link between two edges. -/
def cutLink (bricks : ι → Brick ι) (target : ι) (side : Side) (index : Nat) (paired : ι)
    (pairIndex : Nat) : ι → Brick ι :=
  update (update bricks target (detach (bricks target) side index))
    paired (detach (bricks paired) (pgFlipSide side) pairIndex)

/-- What attaching an end keeps is kept by joining two edges. -/
theorem apply_joinLink {β : Type} (view : Brick ι → β)
    (kept : ∀ brick side index target pairIndex, view (attach brick side index target pairIndex) =
        view brick)
    (bricks : ι → Brick ι) (west : ι) (westIndex : Nat) (east : ι) (eastIndex : Nat) (brick : ι) :
    view (joinLink bricks west westIndex east eastIndex brick) = view (bricks brick) := by
  simp only [joinLink, update_apply]
  split
  · rename_i isWest
    rw [kept, isWest]
  · split
    · rename_i isEast
      rw [kept, isEast]
    · rfl

/-- What detaching an end keeps is kept by cutting a link. -/
theorem apply_cutLink {β : Type} (view : Brick ι → β)
    (kept : ∀ brick side index, view (detach brick side index) = view brick) (bricks : ι → Brick ι)
    (target : ι) (side : Side) (index : Nat) (paired : ι) (pairIndex : Nat) (brick : ι) :
    view (cutLink bricks target side index paired pairIndex brick) = view (bricks brick) := by
  simp only [cutLink, update_apply]
  split
  · rename_i isPaired
    rw [kept, isPaired]
  · split
    · rename_i isTarget
      rw [kept, isTarget]
    · rfl

/-- Joining two free edges joins their ports. -/
theorem peer_joinLink {bricks : ι → Brick ι} {west east : ι} {westIndex eastIndex : Nat}
    (distinct : west ≠ east) (westFree : FreeSlot (bricks west) .east westIndex)
    (eastFree : FreeSlot (bricks east) .west eastIndex) :
    peer (joinLink bricks west westIndex east eastIndex) =
      join (peer bricks) (west, .east, westIndex) (east, .west, eastIndex) := by
  funext port
  rcases port with ⟨brick, side, index⟩
  rw [join_apply]
  unfold peer joinLink
  by_cases isWest : brick = west
  · subst isWest
    simp only [update_self, linkAt_attach westFree, Prod.mk.injEq,
      distinct, false_and, ↓reduceIte, true_and]
    by_cases here : side = .east ∧ index = westIndex
    · obtain ⟨rfl, rfl⟩ := here
      simp [pgFlipSide]
    · simp [here]
  · by_cases isEast : brick = east
    · subst isEast
      simp only [update_of_ne isWest, update_self,
        linkAt_attach eastFree, Prod.mk.injEq, true_and, isWest, false_and, ↓reduceIte]
      by_cases here : side = .west ∧ index = eastIndex
      · obtain ⟨rfl, rfl⟩ := here
        simp [pgFlipSide]
      · simp [here]
    · simp [update_of_ne, isWest, isEast]

/-- Cutting a link cuts its two ports. -/
theorem peer_cutLink {bricks : ι → Brick ι} {target paired : ι} {side : Side}
    {index pairIndex : Nat} (distinct : target ≠ paired)
    (linked : (bricks target).linkAt side index = some (paired, pairIndex))
    (back : (bricks paired).linkAt (pgFlipSide side) pairIndex = some (target, index)) :
    peer (cutLink bricks target side index paired pairIndex) =
      cut (peer bricks) (target, side, index) (paired, pgFlipSide side, pairIndex) := by
  funext port
  rcases port with ⟨brick, otherSide, otherIndex⟩
  rw [cut_apply]
  unfold peer cutLink
  by_cases isPaired : brick = paired
  · subst isPaired
    simp only [update_self, linkAt_detach back, Prod.mk.injEq,
      Ne.symm distinct, false_and, ↓reduceIte, true_and]
    by_cases here : otherSide = pgFlipSide side ∧ otherIndex = pairIndex
    · simp [here]
    · simp [here]
  · by_cases isTarget : brick = target
    · subst isTarget
      simp only [update_of_ne isPaired, update_self,
        linkAt_detach linked, Prod.mk.injEq, true_and, isPaired, false_and, ↓reduceIte]
      by_cases here : otherSide = side ∧ otherIndex = index
      · simp [here]
      · simp [here]
    · simp [update_of_ne, isPaired, isTarget]

section Invariant

variable [Fintype ι]

/-- The number of edges of all bricks that link to a target. -/
def incoming (bricks : ι → Brick ι) (target : ι) : Nat :=
  ∑ brick, pgBrickLinksCountGet (bricks brick) target

/-- The representation invariant of the link graph. -/
structure LinkInvariant (bricks : ι → Brick ι) : Prop where
  counted : ∀ brick, WellCounted (bricks brick)
  paired : Mutual (peer bricks)
  loopless : ∀ brick, pgBrickLinksCountGet (bricks brick) brick = 0
  referenced : ∀ brick, (bricks brick).refcount = 1 + (incoming bricks brick : Int)

/-- Replacing one brick changes the incoming links by that brick's share. -/
theorem incoming_update (bricks : ι → Brick ι) (changed : ι) (value : Brick ι) (target : ι) :
    incoming (update bricks changed value) target + pgBrickLinksCountGet (bricks changed) target =
      incoming bricks target + pgBrickLinksCountGet value target := by
  unfold incoming
  rw [← Finset.add_sum_erase Finset.univ _ (Finset.mem_univ changed),
    ← Finset.add_sum_erase Finset.univ (fun brick => pgBrickLinksCountGet (bricks brick) target)
      (Finset.mem_univ changed)]
  have others : ∑ brick ∈ Finset.univ.erase changed, pgBrickLinksCountGet
            (update bricks changed value brick) target =
        ∑ brick ∈ Finset.univ.erase changed, pgBrickLinksCountGet (bricks brick) target := by
    apply Finset.sum_congr rfl
    intro brick member
    rw [update_of_ne (Finset.ne_of_mem_erase member)]
  rw [others, update_self]
  ring

variable {target paired : ι} {index pairIndex : Nat} {bricks : ι → Brick ι}

section

variable {side : Side} (invariant : LinkInvariant bricks)
  (linked : (bricks target).linkAt side index = some (paired, pairIndex))

include invariant linked

/-- The partner of a linked edge links back to it. -/
theorem LinkInvariant.back :
    (bricks paired).linkAt (pgFlipSide side) pairIndex = some (target, index) := by
  have forward : peer bricks (target, side, index) = some (paired, pgFlipSide side, pairIndex) := by
    simp [peer, linked]
  have backward := invariant.paired _ _ forward
  unfold peer at backward
  cases read : (bricks paired).linkAt (pgFlipSide side) pairIndex with
  | none => simp [read] at backward
  | some link =>
    rcases link with ⟨brick, place⟩
    simp only [read, map_some, some.injEq, Prod.mk.injEq] at backward
    rw [backward.1, backward.2.2]

/-- A brick never links to itself. -/
theorem LinkInvariant.ne_of_linkAt : target ≠ paired := by
  intro same
  subst same
  have positive := linksCount_pos linked
  rw [invariant.loopless] at positive
  exact Nat.lt_irrefl 0 positive

/-- A brick that some other brick links to has at least two references. -/
theorem LinkInvariant.one_lt_refcount : 1 < (bricks paired).refcount := by
  have positive := linksCount_pos linked
  have share : pgBrickLinksCountGet (bricks target) paired ≤ incoming bricks paired :=
    Finset.single_le_sum (fun brick _ => Nat.zero_le (pgBrickLinksCountGet (bricks brick) paired))
      (Finset.mem_univ target)
  rw [invariant.referenced]
  omega

end

/-- Joining two free edges of distinct bricks keeps the invariant. -/
theorem LinkInvariant.join (invariant : LinkInvariant bricks)
    {west east : ι} {westIndex eastIndex : Nat} (distinct : west ≠ east)
    (westFree : FreeSlot (bricks west) .east westIndex)
    (westAvailable : isPlaceAvailable (bricks west) .east = true)
    (eastFree : FreeSlot (bricks east) .west eastIndex)
    (eastAvailable : isPlaceAvailable (bricks east) .west = true) :
    LinkInvariant (joinLink bricks west westIndex east eastIndex) := by
  have westKept : update bricks east (attach (bricks east) .west eastIndex west westIndex) west =
        bricks west :=
    update_of_ne distinct _ _
  refine ⟨?_, ?_, ?_, ?_⟩
  · intro brick
    unfold joinLink
    by_cases isWest : brick = west
    · subst isWest
      rw [update_self]
      exact (invariant.counted brick).attach westFree westAvailable _ _
    · rw [update_of_ne isWest]
      by_cases isEast : brick = east
      · subst isEast
        rw [update_self]
        exact (invariant.counted brick).attach eastFree eastAvailable _ _
      · rw [update_of_ne isEast]
        exact invariant.counted brick
  · rw [peer_joinLink distinct westFree eastFree]
    apply invariant.paired.join
    · simp [peer, westFree.linkAt_eq_none]
    · simp [peer, eastFree.linkAt_eq_none]
    · simp [distinct]
  · intro brick
    unfold joinLink
    by_cases isWest : brick = west
    · subst isWest
      rw [update_self, linksCount_attach westFree, invariant.loopless]
      simp [distinct]
    · rw [update_of_ne isWest]
      by_cases isEast : brick = east
      · subst isEast
        rw [update_self, linksCount_attach eastFree, invariant.loopless]
        simp [Ne.symm distinct]
      · rw [update_of_ne isEast]
        exact invariant.loopless brick
  · intro brick
    have outer :=
      incoming_update (update bricks east (attach (bricks east) .west eastIndex west westIndex))
        west (attach (bricks west) .east westIndex east eastIndex) brick
    have inner :=
      incoming_update bricks east (attach (bricks east) .west eastIndex west westIndex) brick
    rw [westKept, linksCount_attach westFree] at outer
    rw [linksCount_attach eastFree] at inner
    have before := invariant.referenced brick
    unfold joinLink
    by_cases isWest : brick = west
    · subst isWest
      simp only [distinct, ↓reduceIte] at outer inner
      rw [update_self, refcount_attach]
      omega
    · rw [update_of_ne isWest]
      by_cases isEast : brick = east
      · subst isEast
        simp only [Ne.symm distinct, ↓reduceIte] at outer inner
        rw [update_self, refcount_attach]
        omega
      · simp only [isWest, isEast, ↓reduceIte] at outer inner
        rw [update_of_ne isEast]
        omega

/-- Cutting a link keeps the invariant. -/
theorem LinkInvariant.cut (invariant : LinkInvariant bricks) {side : Side}
    (linked : (bricks target).linkAt side index = some (paired, pairIndex)) :
    LinkInvariant (cutLink bricks target side index paired pairIndex) := by
  have back := invariant.back linked
  have distinct := invariant.ne_of_linkAt linked
  have pairedKept : update bricks target (detach (bricks target) side index) paired =
        bricks paired :=
    update_of_ne (Ne.symm distinct) _ _
  refine ⟨?_, ?_, ?_, ?_⟩
  · intro brick
    unfold cutLink
    by_cases isPaired : brick = paired
    · subst isPaired
      rw [update_self]
      exact (invariant.counted brick).detach back
    · rw [update_of_ne isPaired]
      by_cases isTarget : brick = target
      · subst isTarget
        rw [update_self]
        exact (invariant.counted brick).detach linked
      · rw [update_of_ne isTarget]
        exact invariant.counted brick
  · rw [peer_cutLink distinct linked back]
    apply invariant.paired.cut
    simp [peer, linked]
  · intro brick
    unfold cutLink
    by_cases isPaired : brick = paired
    · subst isPaired
      have counted := linksCount_detach back brick
      rw [invariant.loopless] at counted
      rw [update_self]
      omega
    · rw [update_of_ne isPaired]
      by_cases isTarget : brick = target
      · subst isTarget
        have counted := linksCount_detach linked brick
        rw [invariant.loopless] at counted
        rw [update_self]
        omega
      · rw [update_of_ne isTarget]
        exact invariant.loopless brick
  · intro brick
    have outer :=
      incoming_update (update bricks target (detach (bricks target) side index))
        paired (detach (bricks paired) (pgFlipSide side) pairIndex) brick
    have inner := incoming_update bricks target (detach (bricks target) side index) brick
    have pairedShare := linksCount_detach back brick
    have targetShare := linksCount_detach linked brick
    rw [pairedKept] at outer
    have before := invariant.referenced brick
    unfold cutLink
    by_cases isPaired : brick = paired
    · subst isPaired
      simp only [Ne.symm distinct, ↓reduceIte] at pairedShare targetShare
      rw [update_self, refcount_detach]
      omega
    · rw [update_of_ne isPaired]
      by_cases isTarget : brick = target
      · subst isTarget
        simp only [distinct, ↓reduceIte] at pairedShare targetShare
        rw [update_self, refcount_detach]
        omega
      · simp only [isPaired, isTarget, ↓reduceIte] at pairedShare targetShare
        rw [update_of_ne isTarget]
        omega

end Invariant

end PacketGraph
