import PacketGraph.Partition.MergeStep

namespace PacketGraph

open Function List Option Splicing

/-!
# The loops of a merge

The first loop of `pg_graph_merge` looks for the friend of every queue of the
west graph among the queues of the east graph.  Merging two queues takes only
their own friendship away, so the pairs that it finds are those that are
friends when the merge starts, and the loop splices them out in this order.
The other loops destroy the merged queues, which can only take links away.
-/

variable {ι σ : Type}

section Pairs

variable [DecidableEq ι]

/-- The west queues with a friend among the east queues, in order. -/
def crossPairs (friend : ι → Option ι) (eastQueues westQueues : List ι) : List (ι × ι) :=
  westQueues.filterMap (fun hw =>
      (eastQueues.find? (fun he => friend hw = some he)).map (fun he => (hw, he)))

variable {friend : ι → Option ι} {eastQueues westQueues : List ι} {q1 q2 : ι}

theorem find_friend_iff :
    eastQueues.find? (fun he => friend q1 = some he) = some q2 ↔
      q2 ∈ eastQueues ∧ friend q1 = some q2 := by
  constructor
  · intro found
    exact ⟨mem_of_find?_eq_some found, by simpa using find?_some found⟩
  · rintro ⟨member, friends⟩
    cases found : eastQueues.find? (fun he => friend q1 = some he) with
    | none =>
      rw [find?_eq_none] at found
      exact absurd (by simpa using friends) (found q2 member)
    | some other =>
      have same : friend q1 = some other := by simpa using find?_some found
      rw [friends] at same
      exact same.symm

theorem mem_crossPairs_iff :
    (q1, q2) ∈ crossPairs friend eastQueues westQueues ↔
      q1 ∈ westQueues ∧ q2 ∈ eastQueues ∧ friend q1 = some q2 := by
  unfold crossPairs
  rw [mem_filterMap]
  constructor
  · rintro ⟨hw, member, found⟩
    obtain ⟨he, isFound, same⟩ := map_eq_some_iff.mp found
    cases same
    exact ⟨member, find_friend_iff.mp isFound⟩
  · rintro ⟨member, friends⟩
    refine ⟨q1, member, ?_⟩
    rw [find_friend_iff.mpr friends]
    rfl

/-- No queue is in two of the pairs. -/
theorem apart_crossPairs (distinct : westQueues.Nodup)
    (disjoint : ∀ queue ∈ westQueues, queue ∉ eastQueues)
    (mutualFriends : ∀ one other, friend one = some other → friend other = some one) :
    (crossPairs friend eastQueues westQueues).Pairwise Apart := by
  induction westQueues with
  | nil => exact .nil
  | cons hw rest ih =>
    rw [nodup_cons] at distinct
    have later := ih distinct.2 (fun queue member => disjoint queue (mem_cons_of_mem _ member))
    unfold crossPairs at later ⊢
    rw [filterMap_cons]
    split
    · exact later
    · rename_i pair found
      obtain ⟨he, isFound, rfl⟩ := map_eq_some_iff.mp found
      obtain ⟨eastMember, friends⟩ := find_friend_iff.mp isFound
      refine pairwise_cons.mpr ⟨?_, later⟩
      rintro ⟨otherWest, otherEast⟩ member
      obtain ⟨westIn, eastIn, otherFriends⟩ := mem_crossPairs_iff.mp member
      refine ⟨⟨?_, ?_⟩, ?_, ?_⟩
      · rintro rfl
        exact distinct.1 westIn
      · rintro rfl
        exact disjoint hw mem_cons_self eastIn
      · rintro rfl
        exact disjoint he (mem_cons_of_mem _ westIn) eastMember
      · rintro rfl
        have back := mutualFriends _ _ friends
        rw [mutualFriends _ _ otherFriends] at back
        exact distinct.1 (Option.some.inj back ▸ westIn)

end Pairs

section Loop

variable [DecidableEq ι] [Fintype ι] {ops : BrickOps ι σ}

/-- What merging pairs of queues one after the other leaves. -/
structure Merging (before after : World ι σ) (pairs : List (ι × ι)) : Prop where
  kept : LinksOnly before after
  spliced : Splices .east .west (IsMonopole before.bricks) (LinkedOn before.bricks)
      pairs (LinkedOn after.bricks)
  friends : ∀ queue, after.friend queue = before.friend queue ∨ after.friend queue = none
  friendless : ∀ queue, Ends pairs queue → after.friend queue = none

theorem Merging.refl {world : World ι σ} (invariant : LinkInvariant world.bricks) :
    Merging world world [] where
  kept := ⟨invariant, fun _ => rfl, fun _ => rfl, rfl, rfl⟩
  spliced := .none
  friends := fun _ => .inl rfl
  friendless := by
    rintro queue ⟨pair, member, _⟩
    exact absurd member not_mem_nil

/-- The merged queues have no link when no neighbour is merged away. -/
theorem Merging.unlinked {before after : World ι σ} {pairs : List (ι × ι)}
    (merging : Merging before after pairs) (apart : pairs.Pairwise Apart)
    (clean : Clean (LinkedOn before.bricks) pairs) {queue : ι} (isEnd : Ends pairs queue)
    (side : Side) (index : Nat) : (after.bricks queue).linkAt side index = none := by
  have linked := merging.spliced.eq_spliceAll apart clean
  cases isLink : (after.bricks queue).linkAt side index with
  | none => rfl
  | some link =>
    have alone := @clean.untouched _ _ .east .west _ _ _ isEnd link.1
    rw [← linked] at alone
    exact absurd ⟨side, index, link.2, isLink⟩ alone

/-- One more pair of friends is merged first. -/
theorem Merging.cons {world next after : World ι σ} {q1 q2 : ι} {pairs : List (ι × ι)}
    (invariant : LinkInvariant world.bricks) (firstSingle : IsMonopole world.bricks q1)
    (secondSingle : IsMonopole world.bricks q2) (friends : world.friend q1 = some q2)
    (merges : mergeQueues ops world q1 q2 = .ok (none, next)) (later : Merging next after pairs) :
    Merging world after ((q1, q2) :: pairs) := by
  obtain ⟨kept, unfriended, spliced⟩ :=
    mergeQueues_splices invariant firstSingle secondSingle merges
  rw [friend_pgQueueUnfriend friends] at unfriended
  exact
    { kept := kept.trans later.kept
      spliced := by
        have rest := later.spliced
        rw [kept.isMonopole, spliced] at rest
        exact .next invariant.simple firstSingle secondSingle rest
      friends := by
        intro queue
        rcases later.friends queue with same | nothing
        · rw [same, unfriended, update_apply]
          split
          · exact .inr rfl
          · rw [update_apply]
            split
            · exact .inr rfl
            · exact .inl rfl
        · exact .inr nothing
      friendless := by
        intro queue isEnd
        rcases ends_cons_iff.mp isEnd with here | isLater
        · have gone : next.friend queue = none := by
            rw [unfriended]
            rcases here with rfl | rfl
            · rw [update_self]
            · rw [update_apply, update_self, ite_self]
          rcases later.friends queue with same | nothing
          · rw [same, gone]
          · exact nothing
        · exact later.friendless queue isLater }

/-- The loop of a merge that returns 0 merges the pairs of friends. -/
theorem mergeFriends_merges {eastQueues westQueues : List ι} {friend : ι → Option ι}
    {world after : World ι σ} {merged ended : List ι × List ι}
    (invariant : LinkInvariant world.bricks)
    (westSingle : ∀ queue ∈ westQueues, IsMonopole world.bricks queue)
    (eastSingle : ∀ queue ∈ eastQueues, IsMonopole world.bricks queue) (distinct : westQueues.Nodup)
    (disjoint : ∀ queue ∈ westQueues, queue ∉ eastQueues)
    (sameFriends : ∀ hw ∈ westQueues, world.friend hw = friend hw)
    (merges : mergeFriends ops eastQueues westQueues world merged = .ok (none, after, ended)) :
    Merging world after (crossPairs friend eastQueues westQueues) ∧ ended =
        (((crossPairs friend eastQueues westQueues).map Prod.fst).reverse ++ merged.1,
          ((crossPairs friend eastQueues westQueues).map Prod.snd).reverse ++ merged.2) := by
  induction westQueues generalizing world merged with
  | nil =>
    unfold mergeFriends at merges
    cases merges
    exact ⟨.refl invariant, rfl⟩
  | cons hw rest ih =>
    rw [nodup_cons] at distinct
    have sameSearch : eastQueues.find? (pgQueueAreFriend world hw) =
          eastQueues.find? (fun he => friend hw = some he) := by
      unfold pgQueueAreFriend
      rw [sameFriends hw mem_cons_self]
    unfold mergeFriends at merges
    rw [sameSearch] at merges
    unfold crossPairs
    rw [filterMap_cons]
    cases found : eastQueues.find? (fun he => friend hw = some he) with
    | none =>
      rw [found] at merges
      exact ih invariant (fun queue member => westSingle queue (mem_cons_of_mem _ member))
        eastSingle distinct.2
        (fun queue member => disjoint queue (mem_cons_of_mem _ member))
        (fun other member => sameFriends other (mem_cons_of_mem _ member))
        merges
    | some he =>
      rw [found] at merges
      dsimp only at merges
      obtain ⟨eastMember, friends⟩ := find_friend_iff.mp found
      rw [← sameFriends hw mem_cons_self] at friends
      split at merges
      · cases merges
      · cases merges
      rename_i next mergesPair
      have firstSingle := westSingle hw mem_cons_self
      have secondSingle := eastSingle he eastMember
      obtain ⟨kept, unfriended, _⟩ :=
        mergeQueues_splices invariant firstSingle secondSingle mergesPair
      rw [friend_pgQueueUnfriend friends] at unfriended
      obtain ⟨later, isEnded⟩ :=
        ih kept.invariant (fun queue member => by
            rw [kept.isMonopole]
            exact westSingle queue (mem_cons_of_mem _ member))
          (fun queue member => by
            rw [kept.isMonopole]
            exact eastSingle queue member)
          distinct.2
          (fun queue member => disjoint queue (mem_cons_of_mem _ member))
          (fun other member => by
            have notFirst : other ≠ hw := by
              rintro rfl
              exact distinct.1 member
            have notSecond : other ≠ he := by
              rintro rfl
              exact disjoint other (mem_cons_of_mem _ member) eastMember
            rw [unfriended, update_of_ne notFirst, update_of_ne notSecond]
            exact sameFriends other (mem_cons_of_mem _ member))
          merges
      refine ⟨.cons invariant firstSingle secondSingle friends mergesPair later, ?_⟩
      rw [isEnded]
      unfold crossPairs
      simp

end Loop

section Destroy

/-- Links were only taken away. -/
def LosesLinks (before after : ι → Brick ι) : Prop :=
  ∀ brick side index link, (after brick).linkAt side index = some link →
    (before brick).linkAt side index = some link

theorem LosesLinks.refl (bricks : ι → Brick ι) : LosesLinks bricks bricks :=
  fun _ _ _ _ linked => linked

variable {before : ι → Brick ι}

theorem LosesLinks.trans {between after : ι → Brick ι} (first : LosesLinks before between)
    (second : LosesLinks between after) : LosesLinks before after :=
  fun brick side index link linked =>
    first brick side index link (second brick side index link linked)

theorem LosesLinks.adjacent {after : ι → Brick ι} (loses : LosesLinks before after)
    {brick other : ι} (adjacent : Adjacent after brick other) : Adjacent before brick other := by
  obtain ⟨side, index, pairIndex, linked⟩ := adjacent
  exact ⟨side, index, pairIndex, loses brick side index _ linked⟩

variable {brick : Brick ι} {otherSide : Side} {index : Nat} {side : Side}

/-- Writing a side that holds fewer links makes none. -/
theorem linkAt_of_setSide {value : BrickSide ι}
    (fewer : ∀ (place : Nat) (target : ι) (pairIndex : Nat), value.edges[place]? = some ⟨some
        target, pairIndex⟩ → (brick.sides side).edges[place]? = some ⟨some target, pairIndex⟩)
    {link : ι × Nat} (linked : (brick.setSide side value).linkAt otherSide index = some link) :
    brick.linkAt otherSide index = some link := by
  obtain ⟨target, pairIndex⟩ := link
  obtain ⟨named, read⟩ := linkAt_eq_some_iff.mp linked
  refine linkAt_eq_some_iff.mpr ⟨?_, ?_⟩
  · simpa only [Brick.Names, opsGetSide, Brick.type_setSide, Brick.output_setSide] using named
  · have sameStorage : (brick.setSide side value).storageSide otherSide =
          brick.storageSide otherSide := by
      unfold Brick.storageSide
      rw [Brick.type_setSide]
    have samePlace : (brick.setSide side value).storageIndex index = brick.storageIndex index := by
      unfold Brick.storageIndex
      rw [Brick.type_setSide]
    rw [pgBrickGetEdge_eq] at read ⊢
    unfold Brick.stored at read ⊢
    rw [sameStorage, samePlace, Brick.sides_setSide] at read
    split at read
    · rename_i isSide
      rw [isSide]
      exact fewer _ target pairIndex read
    · exact read

/-- Clearing an edge makes no link. -/
theorem linkAt_of_cleared {otherIndex : Nat} {link : ι × Nat} (linked :
      (modifyEdge brick side index (fun _ => .empty)).linkAt otherSide otherIndex = some link) :
    brick.linkAt otherSide otherIndex = some link := by
  rw [modifyEdge_eq] at linked
  refine linkAt_of_setSide ?_ linked
  intro place target pairIndex read
  dsimp only at read
  rw [getElem?_modify] at read
  obtain ⟨edge, isEdge, changed⟩ := map_eq_some_iff.mp read
  split at changed
  · cases changed
  · rw [← changed]
    exact isEdge

/-- Counting links makes no link. -/
theorem linkAt_of_counted {change : Nat → Nat} {link : ι × Nat}
    (linked : (modifyNb brick side change).linkAt otherSide index = some link) :
    brick.linkAt otherSide index = some link := by
  rw [modifyNb_eq] at linked
  refine linkAt_of_setSide ?_ linked
  exact fun _ _ _ read => read

variable [DecidableEq ι]

variable {graph : Graph ι σ} {target : ι}

/-- A change of one brick that makes no link there makes none at all. -/
theorem LosesLinks.modify {change : Brick ι → Brick ι} (earlier : LosesLinks before graph.brick)
    (loses : ∀ brick side index link, (change brick).linkAt side index = some link → brick.linkAt
        side index = some link) : LosesLinks before (graph.modify target change).brick := by
  intro brick side index link linked
  refine earlier brick side index link ?_
  unfold Graph.modify at linked
  dsimp only at linked
  rw [update_apply] at linked
  split at linked
  · rename_i isTarget
    rw [isTarget]
    exact loses _ side index link linked
  · exact linked

theorem LosesLinks.decref (earlier : LosesLinks before graph.brick) (target : ι) :
    LosesLinks before (pgBrickDecref graph target).brick := by
  refine .modify earlier ?_
  intro brick side index link linked
  split at linked
  · exact linked
  · exact linked

theorem LosesLinks.resetLink (graph : Graph ι σ)
    (target : ι) (side : Side) (index : Nat) (paired : ι) (pairIndex : Nat) :
    LosesLinks graph.brick (resetLink graph target side index paired pairIndex).brick := by
  unfold PacketGraph.resetLink
  dsimp only
  have dereferenced := ((LosesLinks.refl graph.brick).decref target).decref paired
  refine .modify (.modify (.modify (.modify dereferenced ?_) ?_) ?_) ?_
  · exact fun _ _ _ _ => linkAt_of_cleared
  · exact fun _ _ _ _ => linkAt_of_cleared
  · exact fun _ _ _ _ => linkAt_of_counted
  · exact fun _ _ _ _ => linkAt_of_counted

variable {ops : BrickOps ι σ}

variable {outcome : Option PgError} {after : Graph ι σ}

theorem brick_of_unlinkNotify {edge : Edge ι}
    (told : unlinkNotify ops graph edge side = (after, outcome)) : after.brick = graph.brick := by
  unfold unlinkNotify at told
  split at told
  · cases told
    rfl
  · cases told
    rfl

/-- Unlinking an edge makes no link, whatever state the bricks are in. -/
theorem LosesLinks.doUnlink (unlinks : doUnlink ops graph target side index = .ok (outcome, after))
    : LosesLinks graph.brick after.brick := by
  unfold PacketGraph.doUnlink at unlinks
  dsimp only at unlinks
  split at unlinks
  · cases unlinks
  split at unlinks
  · cases unlinks
    exact .refl _
  split at unlinks
  · cases unlinks
    exact .refl _
  split at unlinks
  · rename_i answer
    cases unlinks
    rw [brick_of_unlinkNotify answer]
    exact .refl _
  · rename_i told answer
    rw [← brick_of_unlinkNotify answer]
    split at unlinks
    · rename_i secondAnswer
      cases unlinks
      rw [brick_of_unlinkNotify secondAnswer]
      exact .refl _
    · rename_i secondAnswer
      cases unlinks
      rw [← brick_of_unlinkNotify secondAnswer]
      exact .resetLink _ _ _ _ _ _

theorem LosesLinks.genericUnlinkFrom {rounds : Nat} {it : EdgeIterator}
    (unlinks : genericUnlinkFrom ops target rounds graph it = .ok (outcome, after)) :
    LosesLinks graph.brick after.brick := by
  induction rounds generalizing graph it with
  | zero =>
    cases unlinks
    exact .refl _
  | succ rounds ih =>
    unfold PacketGraph.genericUnlinkFrom at unlinks
    split at unlinks
    · split at unlinks
      · cases unlinks
      · rename_i broken
        cases unlinks
        exact .doUnlink broken
      · rename_i broken
        exact (LosesLinks.doUnlink broken).trans (ih unlinks)
    · cases unlinks
      exact .refl _

/-- Destroying a brick makes no link. -/
theorem LosesLinks.destroyBrick {world after : World ι σ}
    (destroys : destroyBrick ops world target = .ok after) :
    LosesLinks world.bricks after.bricks := by
  unfold PacketGraph.destroyBrick at destroys
  split at destroys
  · cases destroys
  · rename_i links destroyed
    have loses : LosesLinks world.bricks links.brick := by
      unfold pgBrickDestroy at destroyed
      split at destroyed
      · cases destroyed
      · rename_i outcome unlinked unlinks
        cases destroyed
        exact (LosesLinks.genericUnlinkFrom unlinks).decref target
    split at destroys
    · cases destroys
      unfold World.bricks
      rw [links_pgQueueUnfriend]
      exact loses
    · cases destroys
      exact loses

theorem LosesLinks.destroyQueues {queues : List ι} {world after : World ι σ}
    {graph left : PgGraph ι} (destroys : destroyQueues ops queues world graph = .ok (after, left)) :
    LosesLinks world.bricks after.bricks := by
  induction queues generalizing world graph with
  | nil =>
    cases destroys
    exact .refl _
  | cons queue rest ih =>
    unfold PacketGraph.destroyQueues at destroys
    split at destroys
    · cases destroys
    · rename_i destroyed
      exact (LosesLinks.destroyBrick destroyed).trans (ih destroys)

end Destroy

end PacketGraph
