import PacketGraph.Partition.Separate
import PacketGraph.Partition.Unqueue

namespace PacketGraph

open Components Function List PartialMatching

/-!
# Merging what was split

A split through a bridge followed by a merge of the two graphs.  On the ports
the merge cuts the two links that the split joined, and joins the ends of the
link that the split cut; the counters, the components and the two graphs follow
from that.
-/

variable {ι σ : Type}

section Parts

variable [DecidableEq ι]

variable {ops : BrickOps ι σ}

theorem linkQuiet_of_silent (silent : ops.Silent) (graph : Graph ι σ) (target : ι) (side : Side)
    (index : Nat) (paired : ι) (pairIndex : Nat) :
    LinkQuiet ops graph target side index paired pairIndex :=
  ⟨silent _ _ _ _, silent _ _ _ _⟩

/-- Unlinking a linked queue cuts its link when no callback objects. -/
theorem unlinkFrom_of_silent [Fintype ι] (silent : ops.Silent) {world : World ι σ}
    (invariant : LinkInvariant world.bricks) {queue : ι}
    (monopole : (world.bricks queue).type = .monopole) {side : Side} {index : Nat} {paired : ι}
    {pairIndex : Nat} (linked : (world.bricks queue).linkAt side index = some (paired, pairIndex))
    (neighbour : ι) :
    unlinkFrom ops world queue (some neighbour) = .ok (none, world.withLinks
          (cutGraph ops world.links queue side index paired pairIndex)) := by
  unfold unlinkFrom
  dsimp only
  rw [pgBrickUnlink_of_linked ops invariant monopole linked,
    breakLink_of_quiet (linkQuiet_of_silent silent _ _ _ _ _ _)]
  rfl

variable {eastQueues westQueues : List ι}

/-- Merging skips the queues that have no friend on the other side. -/
theorem mergeFriends_of_strangers (ops : BrickOps ι σ) {world : World ι σ}
    (strangers : ∀ hw ∈ westQueues, ∀ he ∈ eastQueues, world.friend hw ≠ some he)
    (merged : List ι × List ι) :
    mergeFriends ops eastQueues westQueues world merged = .ok (none, world, merged) := by
  induction westQueues with
  | nil => rfl
  | cons hw rest ih =>
    have notFound : eastQueues.find? (pgQueueAreFriend world hw) = none := by
      rw [find?_eq_none]
      intro he member
      simpa [pgQueueAreFriend] using strangers hw mem_cons_self he member
    unfold mergeFriends
    rw [notFound]
    exact ih (fun other member => strangers other (mem_cons_of_mem _ member))

/-- Merging when only one queue has a friend on the other side. -/
theorem mergeFriends_of_one (ops : BrickOps ι σ) {world after : World ι σ} {q1 q2 : ι}
    (distinct : westQueues.Nodup) (member : q1 ∈ westQueues) (eastMember : q2 ∈ eastQueues)
    (friends : world.friend q1 = some q2)
    (strangers : ∀ hw ∈ westQueues, hw ≠ q1 → ∀ he ∈ eastQueues, world.friend hw ≠ some he)
    (merges : mergeQueues ops world q1 q2 = .ok (none, after))
    (kept : ∀ hw ∈ westQueues, hw ≠ q1 → after.friend hw = world.friend hw)
    (merged : List ι × List ι) :
    mergeFriends ops eastQueues westQueues world merged =
      .ok (none, after, (q1 :: merged.1, q2 :: merged.2)) := by
  induction westQueues with
  | nil => exact absurd member not_mem_nil
  | cons hw rest ih =>
    rw [nodup_cons] at distinct
    unfold mergeFriends
    by_cases isFriend : hw = q1
    · subst isFriend
      have found : eastQueues.find? (pgQueueAreFriend world hw) = some q2 := by
        cases isFound : eastQueues.find? (pgQueueAreFriend world hw) with
        | none =>
          rw [find?_eq_none] at isFound
          exact absurd (by simp [pgQueueAreFriend, friends]) (isFound q2 eastMember)
        | some other =>
          have same := find?_some isFound
          rw [pgQueueAreFriend, friends] at same
          have isOther : q2 = other := by simpa using same
          rw [isOther]
      rw [found]
      dsimp only
      rw [merges]
      refine mergeFriends_of_strangers ops ?_ _
      intro other isOther
      have differs : other ≠ hw := by
        rintro rfl
        exact distinct.1 isOther
      rw [kept other (mem_cons_of_mem _ isOther) differs]
      exact strangers other (mem_cons_of_mem _ isOther) differs
    · have notFound : eastQueues.find? (pgQueueAreFriend world hw) = none := by
        rw [find?_eq_none]
        intro he isEast
        simpa [pgQueueAreFriend] using strangers hw mem_cons_self isFriend he isEast
      rw [notFound]
      exact ih distinct.2
        ((mem_cons.mp member).resolve_left (Ne.symm isFriend)) (fun other isOther =>
          strangers other (mem_cons_of_mem _ isOther))
        (fun other isOther => kept other (mem_cons_of_mem _ isOther))

end Parts

section Queues

variable [DecidableEq ι] [Fintype ι] {ops : BrickOps ι σ} {world : World ι σ}
  {q1 q2 west east : ι} {westIndex eastIndex : Nat}

/-- A west queue and an east queue with their neighbours. -/
structure BetweenQueues (bricks : ι → Brick ι) (q1 q2 west east : ι) (westIndex eastIndex : Nat)
    : Prop where
  westSingle : (bricks q1).type = .monopole
  eastSingle : (bricks q2).type = .monopole
  westLinked : (bricks q1).linkAt .west 0 = some (west, westIndex)
  eastLinked : (bricks q2).linkAt .east 0 = some (east, eastIndex)
  queuesDiffer : q1 ≠ q2
  bricksDiffer : west ≠ east
  westApart : west ≠ q2
  eastApart : east ≠ q1

/-- The bricks once both queues were unlinked. -/
def unqueued (bricks : ι → Brick ι) (q1 q2 west east : ι) (westIndex eastIndex : Nat)
    : ι → Brick ι :=
  cutLink (cutLink bricks q1 .west 0 west westIndex) q2 .east 0 east eastIndex

namespace BetweenQueues

variable {bricks : ι → Brick ι} (between : BetweenQueues bricks q1 q2 west east westIndex eastIndex)
  (invariant : LinkInvariant bricks)

include between invariant

/-- The second queue keeps its link when the first one loses its own. -/
theorem stillLinked :
    (cutLink bricks q1 .west 0 west westIndex q2).linkAt .east 0 = some (east, eastIndex) := by
  rw [linkAt_cutLink invariant between.westLinked,
    if_neg (by simp [between.westApart.symm]), if_neg (by simp)]
  exact between.eastLinked

theorem invariant_unqueued : LinkInvariant (unqueued bricks q1 q2 west east westIndex eastIndex) :=
  (invariant.cut between.westLinked).cut (between.stillLinked invariant)

/-- The west neighbour has room where its queue was. -/
theorem westRoom :
    isPlaceAvailable (unqueued bricks q1 q2 west east westIndex eastIndex west) .east =
      true := by
  unfold unqueued cutLink
  rw [update_of_ne between.bricksDiffer, update_of_ne between.westApart, update_self]
  exact (invariant.counted west).room_detach (invariant.back between.westLinked) rfl

/-- The east neighbour has room where its queue was. -/
theorem eastRoom :
    isPlaceAvailable (unqueued bricks q1 q2 west east westIndex eastIndex east) .west =
      true := by
  have cutInvariant := invariant.cut between.westLinked
  unfold unqueued
  conv_lhs => unfold cutLink
  rw [update_self]
  exact (cutInvariant.counted east).room_detach
    (cutInvariant.back (between.stillLinked invariant)) rfl

end BetweenQueues

/-- Merging two linked queues cuts both and links their neighbours. -/
theorem mergeQueues_of_silent (silent : ops.Silent) (invariant : LinkInvariant world.bricks)
    (between : BetweenQueues world.bricks q1 q2 west east westIndex eastIndex) :
    ∃ after placeWest placeEast, mergeQueues ops world q1 q2 = .ok (none, after) ∧ after.bricks =
          joinLink (unqueued world.bricks q1 q2 west east westIndex eastIndex)
            west placeWest east placeEast ∧
        FreeSlot (unqueued world.bricks q1 q2 west east westIndex eastIndex west) .east placeWest ∧
        FreeSlot (unqueued world.bricks q1 q2 west east westIndex eastIndex east) .west placeEast ∧
        LinkInvariant after.bricks ∧
        after.polls = world.polls ∧
        after.friend = (pgQueueUnfriend world q1).friend := by
  let first := pgQueueUnfriend world q1
  have sameLinks : first.links = world.links := links_pgQueueUnfriend world q1
  have samePolls : first.polls = world.polls := polls_pgQueueUnfriend world q1
  let second := first.withLinks (cutGraph ops world.links q1 .west 0 west westIndex)
  let third := second.withLinks (cutGraph ops second.links q2 .east 0 east eastIndex)
  have secondInvariant : LinkInvariant second.bricks := invariant.cut between.westLinked
  have westPair : queueLink (world.bricks q1) = some west :=
    (queueLink_eq_some_iff between.westSingle).mpr ⟨_, _, _, between.westLinked⟩
  have eastPair : queueLink (world.bricks q2) = some east :=
    (queueLink_eq_some_iff between.eastSingle).mpr ⟨_, _, _, between.eastLinked⟩
  have unlinksFirst : unlinkFrom ops first q1 (some west) = .ok (none, second) := by
    have unlinked :=
      unlinkFrom_of_silent silent (show LinkInvariant first.bricks by
          unfold World.bricks; rw [sameLinks]; exact invariant)
        (show (first.bricks q1).type = .monopole by
          unfold World.bricks; rw [sameLinks]; exact between.westSingle)
        (show (first.bricks q1).linkAt .west 0 = some (west, westIndex) by
          unfold World.bricks; rw [sameLinks]; exact between.westLinked)
        west
    rw [unlinked, sameLinks]
  have unlinksSecond : unlinkFrom ops second q2 (some east) = .ok (none, third) :=
    unlinkFrom_of_silent silent secondInvariant
      ((type_cutLink world.bricks q1 .west 0 west westIndex q2).trans between.eastSingle)
      (between.stillLinked invariant) east
  have thirdInvariant : LinkInvariant third.links.brick := between.invariant_unqueued invariant
  obtain ⟨placeWest, placeEast, westFree, eastFree, linked, joined⟩ :=
    thirdInvariant.link between.bricksDiffer
      (between.westRoom invariant) (between.eastRoom invariant)
  let joinedLinks : Graph ι σ :=
    { third.links with brick := joinLink third.links.brick west placeWest east placeEast }
  refine ⟨third.withLinks joinedLinks, placeWest, placeEast, ?_, rfl,
    westFree, eastFree, joined, samePolls, rfl⟩
  unfold mergeQueues
  dsimp only
  rw [westPair, eastPair, unlinksFirst]
  dsimp only
  rw [unlinksSecond]
  dsimp only
  rw [linked]
  rfl

end Queues

section Trip

variable [DecidableEq ι] [Fintype ι]

omit [DecidableEq ι] [Fintype ι] in
theorem adjacent_of_peer {before after : ι → Brick ι} (same : peer after = peer before) :
    Adjacent after = Adjacent before := by
  funext brick other
  unfold Adjacent
  simp only [linkAt_eq_peer after, linkAt_eq_peer before, same]

/-- The queues of a split stand between its bricks, and unlinking them undoes it. -/
theorem Relinked.between {names : SplitNames} {before after : World ι σ} {w e qw qe : ι}
    (relinked : Relinked names before after w e qw qe)
    (places : QueuePlaces before.bricks w e qw qe) (invariant : LinkInvariant after.bricks) :
    ∃ westIndex eastIndex, BetweenQueues after.bricks qw qe w e westIndex eastIndex ∧
        peer (unqueued after.bricks qw qe w e westIndex eastIndex) = peer before.bricks := by
  obtain ⟨westIndex, eastIndex, westFree, eastFree, ports⟩ := relinked.ports
  have differs := places.queuesDiffer
  have between : BetweenQueues after.bricks qw qe w e westIndex eastIndex :=
    { westSingle := relinked.single.1
      eastSingle := relinked.single.2
      westLinked := by
        rw [linkAt_eq_peer, ports, join_apply, join_apply,
          if_neg (by simp [places.eastNotWest.symm]), if_neg (by simp), if_pos rfl]
        rfl
      eastLinked := by
        rw [linkAt_eq_peer, ports, join_apply, if_neg (by simp), if_pos rfl]
        rfl
      queuesDiffer := differs
      bricksDiffer := places.bricksDiffer
      westApart := places.westNotEast
      eastApart := places.eastNotWest }
  have unlinkedPeer {queue : ι} {side : Side} (unlinked :
        ∀ side index, (before.bricks queue).linkAt side index = none) :
      peer before.bricks (queue, side, 0) = none := by
    unfold peer
    rw [unlinked, Option.map_none]
  refine ⟨westIndex, eastIndex, between, ?_⟩
  have cutInvariant := invariant.cut between.westLinked
  have still := between.stillLinked invariant
  unfold unqueued
  rw [peer_cutLink places.eastNotEast.symm still (cutInvariant.back still),
    peer_cutLink places.westNotWest.symm between.westLinked
      (invariant.back between.westLinked), ports]
  show cut (cut (join (join (peer before.bricks) (w, .east, westIndex) (qw, .west, 0))
            (qe, .east, 0) (e, .west, eastIndex)) (qw, .west, 0) (w, .east, westIndex))
        (qe, .east, 0) (e, .west, eastIndex) = _
  rw [cut_swap _ (qw, Side.west, 0) (w, Side.east, westIndex),
    cut_join_of_ne (by simp [places.westNotEast]) (by simp) (by simp)
      (by simp [places.eastNotWest.symm]), cut_join westFree (unlinkedPeer places.westUnlinked),
    cut_join (unlinkedPeer places.eastUnlinked) eastFree]

/-- The bricks of a world are linked as they were before two queues. -/
structure Rejoined (before after : World ι σ) (qw qe : ι) : Prop where
  invariant : LinkInvariant after.bricks
  adjacent : Adjacent after.bricks = Adjacent before.bricks
  links : ∀ west east, eastLinks after.bricks west east = eastLinks before.bricks west east
  refcount : ∀ brick, brick ≠ qw → brick ≠ qe →
      (after.bricks brick).refcount = (before.bricks brick).refcount
  named : ∀ brick, brick ≠ qw → brick ≠ qe → (after.bricks brick).name = (before.bricks brick).name
  westUnlinked : ∀ side index, (after.bricks qw).linkAt side index = none
  eastUnlinked : ∀ side index, (after.bricks qe).linkAt side index = none

variable {ops : BrickOps ι σ} {world : World ι σ} {graph : PgGraph ι}
  {names : SplitNames} {w e qw qe : ι} {index pairIndex : Nat}
  {result : SplitResult ι σ} {east : PgGraph ι}

/-- Merging the queues of a split links the bricks as before it. -/
theorem CutMade.Done.rejoined
    (done : CutMade.Done ops world names w e .east index pairIndex result east qw qe)
    (silent : ops.Silent) (invariant : LinkInvariant world.bricks)
    (linked : (world.bricks w).linkAt .east index = some (e, pairIndex))
    (places : QueuePlaces (cutLink world.bricks w .east index e pairIndex) w e qw qe) :
    ∃ after, mergeQueues ops result.world qw qe = .ok (none, after) ∧ Rejoined world after qw qe ∧
        after.polls = result.world.polls ∧
        after.friend = (pgQueueUnfriend result.world qw).friend := by
  let mid := world.withLinks (cutGraph ops world.links w .east index e pairIndex)
  have midBricks : mid.bricks = cutLink world.bricks w .east index e pairIndex := rfl
  obtain ⟨westIndex, eastIndex, between, samePeers⟩ := done.relinked.between places done.invariant
  obtain ⟨after, placeWest, placeEast, merges, isAfter, westFree, eastFree,
      joined, samePolls, sameFriends⟩ :=
    mergeQueues_of_silent silent done.invariant between
  have unqueuedInvariant := between.invariant_unqueued done.invariant
  have cutInvariant := done.invariant.cut between.westLinked
  have still := between.stillLinked done.invariant
  have unlinked {queue : ι} (notWest : queue ≠ w) (notEast : queue ≠ e) (free :
        ∀ side index, (mid.bricks queue).linkAt side index = none) (side : Side) (place : Nat) :
      (after.bricks queue).linkAt side place = none := by
    rw [isAfter, linkAt_joinLink places.bricksDiffer westFree eastFree,
      if_neg (by simp [notEast]), if_neg (by simp [notWest]),
      linkAt_eq_peer, samePeers, ← linkAt_eq_peer]
    exact free side place
  refine ⟨after, merges, ?_, samePolls, sameFriends⟩
  exact
    { invariant := joined
      adjacent := by
        rw [isAfter, adjacent_joinLink places.bricksDiffer westFree eastFree,
          adjacent_of_peer samePeers, adjacent_cutLink invariant linked]
        rfl
      links := by
        intro one other
        have cutLost := eastLinks_cutLink invariant linked one other
        have relinked := done.relinked.links one other
        have westLost :=
          eastLinks_cutLink done.invariant (done.invariant.back between.westLinked) one other
        have eastLost := eastLinks_cutLink cutInvariant still one other
        have rejoined :=
          eastLinks_joinLink (unqueuedInvariant.counted w)
            places.bricksDiffer westFree eastFree one other
        rw [isAfter, rejoined]
        rw [midBricks] at relinked
        rw [cutLink_swap result.world.bricks places.westNotWest .east westIndex 0] at westLost
        simp only [pgFlipSide] at westLost
        unfold unqueued
        omega
      refcount := by
        intro brick notWest notEast
        have cutLost :=
          refcount_cutLink world.bricks places.bricksDiffer .east index pairIndex brick
        have relinked := done.relinked.refcount brick notWest notEast
        have westLost :=
          refcount_cutLink result.world.bricks places.westNotWest.symm .west 0 westIndex brick
        have eastLost :=
          refcount_cutLink (cutLink result.world.bricks qw .west 0 w westIndex)
            places.eastNotEast.symm .east 0 eastIndex brick
        have rejoined :=
          refcount_joinLink (unqueued result.world.bricks qw qe w e westIndex eastIndex)
            places.bricksDiffer placeWest placeEast brick
        rw [isAfter, rejoined]
        rw [if_neg notWest] at westLost
        rw [if_neg notEast] at eastLost
        rw [midBricks] at relinked
        unfold unqueued
        omega
      named := by
        intro brick notWest notEast
        rw [isAfter, name_joinLink]
        unfold unqueued
        rw [name_cutLink, name_cutLink, done.relinked.named, if_neg notEast, if_neg notWest]
        exact name_cutLink world.bricks w .east index e pairIndex brick
      westUnlinked :=
        unlinked places.westNotWest.symm places.eastNotWest.symm places.westUnlinked
      eastUnlinked :=
        unlinked places.westNotEast.symm places.eastNotEast.symm places.eastUnlinked }

end Trip

section Whole

variable [DecidableEq ι] [Fintype ι] {ops : BrickOps ι σ}
  {world : World ι σ} {graph : PgGraph ι} {names : SplitNames} {w e qw qe : ι} {pw pe : σ}

omit [DecidableEq ι] [Fintype ι] in
theorem Explored.distinct (explored : Explored world graph) {one other : ι}
    (oneIn : one ∈ graph.all) (otherIn : other ∈ graph.all)
    (same : (world.bricks one).name = (world.bricks other).name) : one = other := by
  obtain ⟨origin, distinct, holds⟩ := explored
  exact distinct one other ((holds.mem one).mp oneIn) ((holds.mem other).mp otherIn) same

omit [DecidableEq ι] [Fintype ι] in
theorem Explored.pollable_iff (explored : Explored world graph) (brick : ι) :
    brick ∈ graph.pollable ↔ brick ∈ graph.all ∧ world.polls brick = true := by
  obtain ⟨origin, _, holds⟩ := explored
  rw [holds.polled, holds.mem]

/-- The names that a split gives to its queues are not taken. -/
structure FreshNames (world : World ι σ) (graph : PgGraph ι) (names : SplitNames) : Prop where
  west : ∀ brick ∈ graph.all, (world.bricks brick).name ≠ names.westQueue
  east : ∀ brick ∈ graph.all, (world.bricks brick).name ≠ names.eastQueue

/-- A split through a bridge has nothing that could fail. -/
theorem split_completes (silent : ops.Silent) (invariant : LinkInvariant world.bricks)
    (explored : Explored world graph)
    (westFound : pgGraphGet world.bricks graph names.westBrick = some w)
    (eastFound : pgGraphGet world.bricks graph names.eastBrick = some e) {index pairIndex : Nat}
    (linked : (world.bricks w).linkAt .east index = some (e, pairIndex))
    (bridge : Bridge world.bricks w e) (fresh : FreshNames world graph names) :
    ∃ place pairPlace, CutMade ops world graph names w e .east place pairPlace ∧
        Completes (cutLink world.bricks w .east place e pairPlace) w e names
          (some (qw, pw)) (some (qe, pe)) := by
  obtain ⟨place, pairPlace, found⟩ := edgeToCut_of_linked (invariant.counted w) linked
  have cut : CutMade ops world graph names w e .east place pairPlace :=
    ⟨westFound, eastFound, found, linkQuiet_of_silent silent _ _ _ _ _ _⟩
  have inGraph {start brick : ι} (isEnd : start = w ∨ start = e) (connected :
        Connected (cutLink world.bricks w .east place e pairPlace) start brick) :
      brick ∈ graph.all := by
    rw [explored.mem_iff invariant (mem_of_pgGraphGet westFound),
      connected_iff_cut invariant cut.linked]
    rcases isEnd with rfl | rfl
    · exact .inl connected
    · exact .inr connected
  have apart {start : ι} {queueName : String} (isEnd : start = w ∨ start = e) (isFresh :
        ∀ brick ∈ graph.all, (world.bricks brick).name ≠ queueName) :
      NamedApart (cutLink world.bricks w .east place e pairPlace) start
        queueName := by
    refine ⟨fun one other oneIn otherIn same => ?_, fun other otherIn => ?_⟩
    · rw [name_cutLink, name_cutLink] at same
      exact explored.distinct (inGraph isEnd oneIn) (inGraph isEnd otherIn) same
    · rw [name_cutLink]
      exact isFresh other (inGraph isEnd otherIn)
  refine ⟨place, pairPlace, cut, ?_⟩
  exact
    { westSlot := nofun
      eastSlot := nofun
      room := by
        unfold cutLink
        rw [update_self]
        exact (invariant.counted e).room_detach (invariant.back cut.linked) rfl
      westNames := apart (.inl rfl) fresh.west
      eastNames := apart (.inr rfl) fresh.east
      apart := fun connected => absurd connected (bridge place pairPlace cut.linked) }

/--
What a merge after a split restores: the bricks and pollable bricks of the
graph, the references of every brick beside the queues, and the links.
-/
structure Restored (before : World ι σ) (graph : PgGraph ι) (merged : MergeResult ι σ) (qw qe : ι)
    : Prop where
  all : ∀ brick, brick ∈ merged.graph.all ↔ brick ∈ graph.all
  pollable : ∀ brick, brick ∈ merged.graph.pollable ↔ brick ∈ graph.pollable
  refcount : ∀ brick, brick ≠ qw → brick ≠ qe →
      (merged.world.bricks brick).refcount = (before.bricks brick).refcount
  links : ∀ west east, eastLinks merged.world.bricks west east = eastLinks before.bricks west east

variable {first : List ι → Option ι}

omit [Fintype ι] in
/-- Exploring without a brick starts from any brick of the graph. -/
theorem pgGraphExplorePtr_of_picked (bricks : ι → Brick ι) (polls : ι → Bool) {graph : PgGraph ι}
    {start : ι} (rounds : Nat) (picked : getAnyBrick first graph = some start) :
    pgGraphExplorePtr bricks polls first rounds graph none =
      pgGraphExplorePtr bricks polls first rounds graph (some start) := by
  unfold pgGraphExplorePtr
  rw [picked]
  rfl

/-- The end of a merge explores the bricks that are linked as before. -/
theorem explore_rejoined {after : World ι σ} {polls : ι → Bool}
    (rejoined : Rejoined world after qw qe) (invariant : LinkInvariant world.bricks)
    (explored : Explored world graph) (notWest : qw ∉ graph.all) (notEast : qe ∉ graph.all)
    (samePolls : ∀ brick, brick ≠ qw → brick ≠ qe → polls brick = world.polls brick)
    {rounds : Nat} (enough : Fintype.card ι ≤ rounds) {left : PgGraph ι} {start : ι}
    (picked : getAnyBrick first left = some start) (member : start ∈ graph.all) :
    ∃ filled, pgGraphExplorePtr after.bricks polls first rounds left none = some (none, filled) ∧
        (∀ brick, brick ∈ filled.all ↔ brick ∈ graph.all) ∧
        ∀ brick, brick ∈ filled.pollable ↔ brick ∈ graph.pollable := by
  have connected (brick : ι) : Connected after.bricks start brick ↔ brick ∈ graph.all := by
    unfold Connected
    rw [rejoined.adjacent]
    exact (explored.mem_iff invariant member brick).symm
  have isOld {brick : ι} (isIn : brick ∈ graph.all) : brick ≠ qw ∧ brick ≠ qe :=
    ⟨fun same => notWest (same ▸ isIn), fun same => notEast (same ▸ isIn)⟩
  have names : DistinctNames after.bricks start := by
    intro one other oneIn otherIn same
    rw [connected] at oneIn otherIn
    rw [rejoined.named one (isOld oneIn).1 (isOld oneIn).2,
      rejoined.named other (isOld otherIn).1 (isOld otherIn).2] at same
    exact explored.distinct oneIn otherIn same
  obtain ⟨filled, returned, holds⟩ :=
    pgGraphExplorePtr_of_distinct rejoined.invariant polls first left enough names
  refine ⟨filled, ?_, fun brick => ?_, fun brick => ?_⟩
  · rw [pgGraphExplorePtr_of_picked _ _ _ picked, returned]
  · rw [holds.mem, connected]
  · rw [holds.polled, connected, explored.pollable_iff]
    refine and_congr_right (fun isIn => ?_)
    rw [samePolls brick (isOld isIn).1 (isOld isIn).2]

omit [DecidableEq ι] [Fintype ι] in
theorem mem_getAllQueues {queue : ι} :
    queue ∈ getAllQueues world graph ↔ queue ∈ graph.pollable ∧ world.isQueue queue = true := by
  unfold getAllQueues
  rw [mem_reverse, mem_filter]

omit [DecidableEq ι] [Fintype ι] in
theorem nodup_getAllQueues (world : World ι σ) (distinct : graph.pollable.Nodup) :
    (getAllQueues world graph).Nodup :=
  nodup_reverse.mpr (distinct.filter _)

omit [DecidableEq ι] [Fintype ι] in
/-- A brick that is picked is a brick of the graph. -/
theorem Pickable.mem {brick : ι} (pickable : Pickable graph brick)
    (polled : ∀ other ∈ graph.pollable, other ∈ graph.all) : brick ∈ graph.all := by
  unfold Pickable at pickable
  split at pickable
  · rename_i isPollable
    rw [pickable]
    exact polled _ (isPollable ▸ mem_cons_self)
  · exact pickable

namespace CutMade.Done

variable {result : SplitResult ι σ} {east : PgGraph ι} {index pairIndex : Nat} (done :
    CutMade.Done ops world names w e .east index pairIndex result east qw qe) (places :
    QueuePlaces (cutLink world.bricks w .east index e pairIndex) w e qw qe)
  (separated : Separated world graph result east w e qw qe)

include done places

theorem friends : result.world.friend qw = some qe := by
  rw [done.relinked.friend, update_of_ne places.queuesDiffer, update_self]

theorem westQueue_mem : qw ∈ getAllQueues result.world result.graph := by
  rw [mem_getAllQueues, done.westHolds.polled, done.relinked.isQueue, done.relinked.polls]
  simp only [update_of_ne places.queuesDiffer, update_self, and_true]
  exact .refl

omit places in
theorem eastQueue_mem : qe ∈ getAllQueues result.world east := by
  rw [mem_getAllQueues, done.eastHolds.polled, done.relinked.isQueue, done.relinked.polls]
  simp only [update_self, and_true]
  exact .refl

include separated

omit places in
/-- A queue of the west graph beside the new one was in the graph before. -/
theorem old_west {queue : ι} (member : queue ∈ result.graph.all) (differs : queue ≠ qw) :
    queue ∈ graph.all ∧ queue ≠ qe := by
  have notEast : queue ≠ qe := by
    rintro rfl
    exact separated.disjoint queue member separated.east.2
  rcases (separated.union queue).mp (.inl member) with isIn | isWest | isEast
  · exact ⟨isIn, notEast⟩
  · exact absurd isWest differs
  · exact absurd isEast notEast

/-- No other queue of the west graph has a friend in the east graph. -/
theorem strangers (unused : SlotsUnused world graph (some (qw, pw)) (some (qe, pe)))
    (noFriends : ∀ one ∈ graph.all, ∀ other ∈ graph.all, one ≠ other → world.isQueue one = true →
        world.isQueue other = true → world.friend one ≠ some other)
    {hw he : ι} (isWest : hw ∈ getAllQueues result.world result.graph) (differs : hw ≠ qw)
    (isEast : he ∈ getAllQueues result.world east) : result.world.friend hw ≠ some he := by
  rw [mem_getAllQueues, done.westHolds.polled] at isWest
  rw [mem_getAllQueues, done.eastHolds.polled] at isEast
  obtain ⟨⟨westIn, _⟩, westQueue⟩ := isWest
  obtain ⟨⟨eastIn, _⟩, eastQueue⟩ := isEast
  rw [← done.westHolds.mem] at westIn
  rw [← done.eastHolds.mem] at eastIn
  obtain ⟨inGraph, notEast⟩ := done.old_west separated westIn differs
  have sameFriend : result.world.friend hw = world.friend hw := by
    rw [done.relinked.friend, update_of_ne notEast, update_of_ne differs]
    rfl
  rw [sameFriend]
  have notWestQueue : he ≠ qw := by
    rintro rfl
    exact separated.disjoint he separated.west.2 eastIn
  rcases (separated.union he).mp (.inr eastIn) with isIn | isQw | rfl
  · by_cases isQe : he = qe
    · rw [isQe]
      exact (unused.east (qe, pe) rfl).friendless hw
    · refine noFriends hw inGraph he isIn ?_ ?_ ?_
      · rintro rfl
        exact separated.disjoint hw westIn eastIn
      · rw [done.relinked.isQueue, update_of_ne notEast, update_of_ne differs] at westQueue
        exact westQueue
      · rw [done.relinked.isQueue, update_of_ne isQe, update_of_ne notWestQueue] at eastQueue
        exact eastQueue
  · exact absurd isQw notWestQueue
  · exact (unused.east (he, pe) rfl).friendless hw

end CutMade.Done

/--
A split through a bridge followed by a merge of its two graphs succeeds and
restores the graph, the references and the links.
-/
theorem graph_merge_undoes_split (silent : ops.Silent) {first : List ι → Option ι}
    (chooses : Chooses first) {rounds : Nat} (enough : Fintype.card ι ≤ rounds)
    (invariant : LinkInvariant world.bricks) (explored : Explored world graph)
    (westFound : pgGraphGet world.bricks graph names.westBrick = some w)
    (eastFound : pgGraphGet world.bricks graph names.eastBrick = some e) {index pairIndex : Nat}
    (linked : (world.bricks w).linkAt .east index = some (e, pairIndex))
    (bridge : Bridge world.bricks w e) (fresh : FreshNames world graph names)
    (unused : SlotsUnused world graph (some (qw, pw)) (some (qe, pe)))
    (noFriends : ∀ one ∈ graph.all, ∀ other ∈ graph.all, one ≠ other → world.isQueue one = true →
        world.isQueue other = true → world.friend one ≠ some other) :
    ∃ split east merged, pgGraphSplit ops first rounds world graph names
          (some (qw, pw)) (some (qe, pe)) =
          .ok (some split) ∧
        split.east = some east ∧
        pgGraphMerge ops first rounds split.world split.graph east = .ok (some merged) ∧
        merged.error = none ∧
        Restored world graph merged qw qe := by
  obtain ⟨place, pairPlace, cut, completes⟩ :=
    split_completes silent invariant explored westFound eastFound linked bridge fresh
  obtain ⟨split, returned, succeeds, _⟩ := cut.returns invariant first enough unused
  obtain ⟨east, westSlot, isWestSlot, eastSlot, isEastSlot, done⟩ := succeeds completes
  cases isWestSlot
  cases isEastSlot
  have places := (cut.places invariant unused).both (qw, pw) rfl (qe, pe) rfl
  have separated :=
    done.separated invariant cut.linked places explored
      (mem_of_pgGraphGet westFound) (bridge place pairPlace cut.linked)
  obtain ⟨after, merges, rejoined, samePolls, sameFriends⟩ :=
    done.rejoined silent invariant cut.linked places
  have friends := done.friends places
  rw [friend_pgQueueUnfriend friends] at sameFriends
  have pollableIn (brick : ι) (isPolled : brick ∈ split.graph.pollable) : brick ∈ split.graph.all :=
    (done.westHolds.mem brick).mpr ((done.westHolds.polled brick).mp isPolled).1
  -- the loop merges the two new queues and no others
  have loop : mergeFriends ops (getAllQueues split.world east)
          (getAllQueues split.world split.graph) split.world ([], []) =
        .ok (none, after, ([qw], [qe])) := by
    refine mergeFriends_of_one ops (nodup_getAllQueues _ done.westHolds.polledOnce)
      (done.westQueue_mem places) done.eastQueue_mem friends (fun hw isWest differs he isEast =>
        done.strangers places separated unused noFriends isWest differs isEast)
      merges ?_ ([], [])
    intro hw isWest differs
    have isIn := pollableIn hw (mem_getAllQueues.mp isWest).1
    rw [sameFriends, update_of_ne differs, update_of_ne (done.old_west separated isIn differs).2]
  -- both queues are destroyed without touching another brick
  obtain ⟨oneLess, destroysWest, westEmptied⟩ :=
    @destroyQueues_of_unlinked ι σ _ after ops [qw] (by
        intro queue member
        rw [mem_singleton.mp member]
        exact rejoined.westUnlinked)
      (by
        intro queue member
        rw [mem_singleton.mp member, sameFriends, update_self])
      split.graph
  obtain ⟨left, destroysEast, eastEmptied⟩ :=
    @destroyQueues_of_unlinked ι σ _ oneLess ops [qe] (by
        intro queue member side index
        rw [mem_singleton.mp member, westEmptied.shape.linkAt]
        exact rejoined.eastUnlinked side index)
      (by
        intro queue member
        rw [mem_singleton.mp member, westEmptied.friend, sameFriends,
          update_of_ne places.queuesDiffer.symm, update_self])
      east
  have shape : SameShape after.bricks left.bricks := westEmptied.shape.trans eastEmptied.shape
  -- the exploration starts from a brick that was in the graph before
  let popped := [qw].foldl (graphPop after.polls) split.graph
  have inPopped (brick : ι) : brick ∈ popped.all ↔ brick ∈ split.graph.all ∧ brick ∉ [qw] :=
    mem_popped_all after.polls done.westHolds.distinct [qw] brick
  have westPolled : after.polls qw = true := by
    rw [samePolls, done.relinked.polls, update_of_ne places.queuesDiffer, update_self]
  have polledPopped (brick : ι) (isPolled : brick ∈ popped.pollable) : brick ∈ popped.all := by
    have kept :=
      (mem_popped_pollable after.polls done.westHolds.polledOnce [qw] (fun queue member => by
          rw [mem_singleton.mp member]
          exact westPolled) brick).mp isPolled
    exact (inPopped brick).mpr ⟨pollableIn brick kept.1, kept.2⟩
  have notEmpty : popped.all ≠ [] :=
    ne_nil_of_mem ((inPopped w).mpr ⟨separated.west.1, by simpa using places.westNotWest⟩)
  obtain ⟨start, picked, pickable⟩ := exists_picked chooses notEmpty
  have startIn := (inPopped start).mp (pickable.mem polledPopped)
  have startOld := done.old_west separated startIn.1 (by simpa using startIn.2)
  have leftPolls : left.polls = split.world.polls :=
    (eastEmptied.polls.trans westEmptied.polls).trans samePolls
  have oldPolls (brick : ι) (notWest : brick ≠ qw) (notEast : brick ≠ qe) :
      left.polls brick = world.polls brick := by
    rw [leftPolls, done.relinked.polls, update_of_ne notEast, update_of_ne notWest]
    rfl
  obtain ⟨filled, explores, sameAll, samePollable⟩ :=
    explore_rejoined rejoined invariant explored
      (unused.west (qw, pw) rfl).outside (unused.east (qe, pe) rfl).outside
      oldPolls enough picked startOld.1
  refine ⟨split, east, ⟨left, filled, none⟩, returned, done.returned, ?_, rfl, ?_⟩
  · unfold pgGraphMerge
    rw [loop]
    dsimp only
    rw [destroysWest]
    dsimp only
    rw [destroysEast]
    dsimp only
    rw [shape.explore]
    exact congrArg (fun ended => Except.ok (Option.map _ ended)) explores
  · exact
      { all := sameAll
        pollable := samePollable
        refcount := by
          intro brick notWest notEast
          rw [eastEmptied.others brick (by simpa using notEast),
            westEmptied.others brick (by simpa using notWest)]
          exact rejoined.refcount brick notWest notEast
        links := by
          intro one other
          rw [shape.eastLinks]
          exact rejoined.links one other }

end Whole

/-- Two hubs with one link are split and merged again. -/
theorem graph_merge_undoes_split_hubs :
    ∃ split east merged, pgGraphSplit (quietOps (Fin 4)) List.head? 4 (hubWorld hubsOnce)
          hubTable hubNames (some (2, ())) (some (3, ())) =
          .ok (some split) ∧
        split.east = some east ∧
        pgGraphMerge (quietOps (Fin 4)) List.head? 4 split.world split.graph east =
          .ok (some merged) ∧
        merged.error = none ∧
        Restored (hubWorld hubsOnce) hubTable merged 2 3 := by
  refine graph_merge_undoes_split (fun _ _ _ _ => rfl) chooses_head
    (le_refl 4) hubsOnce_invariant hubsOnce_explored (by decide) (by decide)
    hubsOnce_linked hubsOnce_bridge ⟨by decide, by decide⟩
    (hub_slots hubsOnce_invariant (by decide)) ?_
  intro one _ other _ _ isQueue
  cases isQueue

end PacketGraph
