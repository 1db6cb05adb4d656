import PacketGraph.Partition.MergeRun
import PacketGraph.Partition.RoundTrip

namespace PacketGraph

open List Relation Splicing

/-!
# What a merge of two graphs keeps

`pg_graph_merge` always links the neighbour in the west graph on its east side
to the west side of the neighbour in the east graph, and fills the west graph
by exploring from one brick that is left of it.  It keeps every brick and every
side exactly when the queues were linked on these sides, when no neighbour of
two merged queues is itself merged away, and when one exploration from the west
graph finds everything that is left.
-/

variable {ι σ : Type}

section Spec

/-- What holds of all queues of a program. -/
structure QueuesSound (world : World ι σ) : Prop where
  single : ∀ queue, world.isQueue queue = true → IsMonopole world.bricks queue
  polled : ∀ queue, world.isQueue queue = true → world.polls queue = true
  mutualFriends : ∀ one other, world.friend one = some other → world.friend other = some one

/-- A graph that holds the components of its bricks. -/
structure Whole (world : World ι σ) (graph : PgGraph ι) : Prop where
  distinct : graph.all.Nodup
  polledOnce : graph.pollable.Nodup
  polled : ∀ brick, brick ∈ graph.pollable ↔ brick ∈ graph.all ∧ world.polls brick = true
  closed : ∀ brick ∈ graph.all, ∀ other, Adjacent world.bricks brick other → other ∈ graph.all

/-- Two graphs without a common brick or name. -/
structure Mergeable [DecidableEq ι] [Fintype ι] (world : World ι σ) (west east : PgGraph ι)
    : Prop where
  invariant : LinkInvariant world.bricks
  queues : QueuesSound world
  westWhole : Whole world west
  eastWhole : Whole world east
  disjoint : ∀ brick ∈ west.all, brick ∉ east.all
  names : ∀ one other, one ∈ west.all ∨ one ∈ east.all → other ∈ west.all ∨ other ∈ east.all →
      (world.bricks one).name = (world.bricks other).name → one = other

/-- Two queues that are friends across the graphs. -/
structure CrossPair (world : World ι σ) (west east : PgGraph ι) (q1 q2 : ι) : Prop where
  westIn : q1 ∈ west.all
  eastIn : q2 ∈ east.all
  westQueue : world.isQueue q1 = true
  eastQueue : world.isQueue q2 = true
  friends : world.friend q1 = some q2

/-- A queue that has a friend in the other graph. -/
def CrossQueue (world : World ι σ) (west east : PgGraph ι) (queue : ι) : Prop :=
  ∃ other, CrossPair world west east queue other ∨ CrossPair world west east other queue

/-- A brick of the two graphs that a merge has to keep. -/
def Remains (world : World ι σ) (west east : PgGraph ι) (brick : ι) : Prop :=
  (brick ∈ west.all ∨ brick ∈ east.all) ∧ ¬ CrossQueue world west east brick

/--
What a merge is for: the west graph holds the bricks of both graphs beside the
merged queues, and the neighbours of two merged queues are linked to each other
on the sides on which they were linked to their queues.
-/
structure Merged (world : World ι σ) (west east : PgGraph ι) (result : MergeResult ι σ) : Prop where
  all : ∀ brick, brick ∈ result.graph.all ↔ Remains world west east brick
  joined : ∀ q1 q2 n1 n2 side1 side2, CrossPair world west east q1 q2 →
      LinkedOn world.bricks n1 side1 q1 → LinkedOn world.bricks n2 side2 q2 →
      LinkedOn result.world.bricks n1 side1 n2 ∧ LinkedOn result.world.bricks n2 side2 n1

/-- Two bricks are linked, or are the neighbours of two merged queues. -/
def JoinedBy (world : World ι σ) (west east : PgGraph ι) (one other : ι) : Prop :=
  (Adjacent world.bricks one other ∧ ¬ CrossQueue world west east one ∧
      ¬ CrossQueue world west east other) ∨ ∃ q1 q2, CrossPair world west east q1 q2 ∧
        (Adjacent world.bricks q1 one ∧ Adjacent world.bricks q2 other ∨
          Adjacent world.bricks q1 other ∧ Adjacent world.bricks q2 one)

/-- The graphs for which a merge does what it is for. -/
structure MergesWell (world : World ι σ) (west east : PgGraph ι) : Prop where
  sides : ∀ q1 q2 n1 n2 side1 side2, CrossPair world west east q1 q2 →
      LinkedOn world.bricks n1 side1 q1 → LinkedOn world.bricks n2 side2 q2 →
      side1 = .east ∧ side2 = .west
  inner : ∀ q1 q2 n1 n2, CrossPair world west east q1 q2 → Adjacent world.bricks q1 n1 →
      Adjacent world.bricks q2 n2 →
      ¬ CrossQueue world west east n1 ∧ ¬ CrossQueue world west east n2
  connected : ∀ one other, Remains world west east one → Remains world west east other →
      ReflTransGen (JoinedBy world west east) one other
  started : (∀ brick ∈ west.all, CrossQueue world west east brick) →
      ∀ brick ∈ east.all, CrossQueue world west east brick

end Spec

section Pairs

variable [DecidableEq ι] [Fintype ι] {world : World ι σ} {west east : PgGraph ι}

/-- The pairs that the loop of a merge finds, in order. -/
def mergedPairs (world : World ι σ) (west east : PgGraph ι) : List (ι × ι) :=
  crossPairs world.friend (getAllQueues world east) (getAllQueues world west)

namespace Mergeable

variable (mergeable : Mergeable world west east)

include mergeable

variable {queue : ι}

theorem mem_westQueues_iff :
    queue ∈ getAllQueues world west ↔ queue ∈ west.all ∧ world.isQueue queue = true := by
  rw [mem_getAllQueues, mergeable.westWhole.polled]
  exact ⟨fun member => ⟨member.1.1, member.2⟩, fun member =>
      ⟨⟨member.1, mergeable.queues.polled queue member.2⟩, member.2⟩⟩

theorem mem_eastQueues_iff :
    queue ∈ getAllQueues world east ↔ queue ∈ east.all ∧ world.isQueue queue = true := by
  rw [mem_getAllQueues, mergeable.eastWhole.polled]
  exact ⟨fun member => ⟨member.1.1, member.2⟩, fun member =>
      ⟨⟨member.1, mergeable.queues.polled queue member.2⟩, member.2⟩⟩

theorem mem_mergedPairs_iff {q1 q2 : ι} :
    (q1, q2) ∈ mergedPairs world west east ↔ CrossPair world west east q1 q2 := by
  unfold mergedPairs
  rw [mem_crossPairs_iff, mergeable.mem_westQueues_iff, mergeable.mem_eastQueues_iff]
  exact ⟨fun member => ⟨member.1.1, member.2.1.1, member.1.2, member.2.1.2, member.2.2⟩,
    fun pair => ⟨⟨pair.westIn, pair.westQueue⟩, ⟨pair.eastIn, pair.eastQueue⟩, pair.friends⟩⟩

theorem ends_mergedPairs_iff :
    Ends (mergedPairs world west east) queue ↔ CrossQueue world west east queue := by
  constructor
  · rintro ⟨⟨q1, q2⟩, member, rfl | rfl⟩
    · exact ⟨q2, .inl (mergeable.mem_mergedPairs_iff.mp member)⟩
    · exact ⟨q1, .inr (mergeable.mem_mergedPairs_iff.mp member)⟩
  · rintro ⟨other, isFirst | isSecond⟩
    · exact ⟨(queue, other), mergeable.mem_mergedPairs_iff.mpr isFirst, .inl rfl⟩
    · exact ⟨(other, queue), mergeable.mem_mergedPairs_iff.mpr isSecond, .inr rfl⟩

theorem queues_disjoint (queue : ι) (westIn : queue ∈ getAllQueues world west) :
    queue ∉ getAllQueues world east := by
  intro eastIn
  exact mergeable.disjoint queue (mergeable.mem_westQueues_iff.mp westIn).1
    (mergeable.mem_eastQueues_iff.mp eastIn).1

theorem apart : (mergedPairs world west east).Pairwise Apart :=
  apart_crossPairs (nodup_getAllQueues world mergeable.westWhole.polledOnce)
    mergeable.queues_disjoint mergeable.queues.mutualFriends

/-- The loop of a merge that returns 0 merges the friends across the graphs. -/
theorem merging {ops : BrickOps ι σ} {mid : World ι σ} {merged : List ι × List ι}
    (merges : mergeFriends ops (getAllQueues world east) (getAllQueues world west) world ([], []) =
        .ok (none, mid, merged)) :
    Merging world mid (mergedPairs world west east) ∧ merged =
        (((mergedPairs world west east).map Prod.fst).reverse,
          ((mergedPairs world west east).map Prod.snd).reverse) := by
  have result :=
    mergeFriends_merges mergeable.invariant (fun queue member =>
        mergeable.queues.single queue (mergeable.mem_westQueues_iff.mp member).2)
      (fun queue member => mergeable.queues.single queue (mergeable.mem_eastQueues_iff.mp member).2)
      (nodup_getAllQueues world mergeable.westWhole.polledOnce)
      mergeable.queues_disjoint (fun _ _ => rfl) merges
  simpa only [append_nil, mergedPairs] using result

/-- The graph of a brick holds its neighbours. -/
theorem same_graph {one other : ι} (adjacent : Adjacent world.bricks one other) :
    (one ∈ west.all ↔ other ∈ west.all) ∧ (one ∈ east.all ↔ other ∈ east.all) := by
  have back := adjacent.symm mergeable.invariant
  exact ⟨⟨fun member => mergeable.westWhole.closed one member other adjacent,
        fun member => mergeable.westWhole.closed other member one back⟩,
      ⟨fun member => mergeable.eastWhole.closed one member other adjacent,
        fun member => mergeable.eastWhole.closed other member one back⟩⟩

theorem across (pair : ι × ι) (member : pair ∈ mergedPairs world west east) :
    ¬ Touches (LinkedOn world.bricks) pair.1 pair.2 := by
  intro touches
  have cross := mergeable.mem_mergedPairs_iff.mp member
  exact mergeable.disjoint pair.2 ((mergeable.same_graph touches).1.mp cross.westIn) cross.eastIn

end Mergeable

end Pairs

section Run

variable [DecidableEq ι] [Fintype ι] {ops : BrickOps ι σ} {first : List ι → Option ι} {rounds : Nat}
  {world mid : World ι σ} {west east westLeft : PgGraph ι} {result : MergeResult ι σ}

/-- How a merge that returns 0 went: its loop, what it left, and its end. -/
structure MergeRan (ops : BrickOps ι σ) (first : List ι → Option ι) (rounds : Nat)
    (world : World ι σ) (west east : PgGraph ι) (result : MergeResult ι σ) (mid : World ι σ)
    (westLeft : PgGraph ι) : Prop where
  merging : Merging world mid (mergedPairs world west east)
  destroyed : ∃ between eastLeft, destroyQueues ops
          ((mergedPairs world west east).map Prod.fst).reverse mid west = .ok (between, westLeft) ∧
        destroyQueues ops ((mergedPairs world west east).map Prod.snd).reverse between east =
          .ok (result.world, eastLeft)
  explored : pgGraphExplorePtr result.world.bricks result.world.polls first rounds westLeft none =
      some (none, result.graph)

theorem pgGraphMerge_ran (mergeable : Mergeable world west east)
    (merges : pgGraphMerge ops first rounds world west east = .ok (some result))
    (succeeds : result.error = none) :
    ∃ mid westLeft, MergeRan ops first rounds world west east result mid westLeft := by
  unfold pgGraphMerge at merges
  split at merges
  · cases merges
  · cases merges
    cases succeeds
  rename_i mid merged loop
  obtain ⟨merging, rfl⟩ := mergeable.merging loop
  split at merges
  · cases merges
  rename_i between westLeft westDestroyed
  split at merges
  · cases merges
  rename_i left eastLeft eastDestroyed
  simp only [Except.ok.injEq, Option.map_eq_some_iff] at merges
  obtain ⟨⟨failure, graph⟩, explored, rfl⟩ := merges
  dsimp only at succeeds
  subst succeeds
  exact ⟨mid, westLeft, merging, ⟨between, eastLeft, westDestroyed, eastDestroyed⟩, explored⟩

namespace MergeRan

variable (ran : MergeRan ops first rounds world west east result mid westLeft)
  (mergeable : Mergeable world west east)

include ran

theorem losesLinks : LosesLinks mid.bricks result.world.bricks := by
  obtain ⟨between, eastLeft, westDestroyed, eastDestroyed⟩ := ran.destroyed
  exact (LosesLinks.destroyQueues westDestroyed).trans (LosesLinks.destroyQueues eastDestroyed)

include mergeable

/-- A merge that joins all neighbours has merged none of them away. -/
theorem clean_of_merged (merged : Merged world west east result) :
    Clean (LinkedOn world.bricks) (mergedPairs world west east) := by
  have simple := mergeable.invariant.simple
  refine ran.merging.spliced.clean_of_joined mergeable.apart simple mergeable.across ?_
  rintro ⟨q1, q2⟩ member n1 n2 onFirst onSecond
  have cross := mergeable.mem_mergedPairs_iff.mp member
  obtain ⟨side1, linked1⟩ := simple.back q1 n1 onFirst
  obtain ⟨side2, linked2⟩ := simple.back q2 n2 onSecond
  obtain ⟨there, back⟩ := merged.joined q1 q2 n1 n2 side1 side2 cross linked1 linked2
  exact ⟨ran.losesLinks.adjacent ⟨side1, there⟩, ran.losesLinks.adjacent ⟨side2, back⟩⟩

end MergeRan

/-- What a merge leaves that merges no neighbour away. -/
structure MergedCleanly (first : List ι → Option ι) (rounds : Nat) (world : World ι σ)
    (west east : PgGraph ι) (result : MergeResult ι σ) (mid : World ι σ) (westLeft : PgGraph ι)
    : Prop where
  kept : LinksOnly world mid
  linked : LinkedOn mid.bricks = spliceAll .east .west (LinkedOn world.bricks)
        (mergedPairs world west east)
  shape : SameShape mid.bricks result.world.bricks
  all : ∀ brick, brick ∈ westLeft.all ↔ brick ∈ west.all ∧ ¬ CrossQueue world west east brick
  polled : ∀ brick ∈ westLeft.pollable, brick ∈ westLeft.all
  explored : pgGraphExplorePtr mid.bricks world.polls first rounds westLeft none =
      some (none, result.graph)

theorem MergeRan.cleanly (ran : MergeRan ops first rounds world west east result mid westLeft)
    (mergeable : Mergeable world west east)
    (clean : Clean (LinkedOn world.bricks) (mergedPairs world west east)) :
    MergedCleanly first rounds world west east result mid westLeft := by
  have linked := ran.merging.spliced.eq_spliceAll mergeable.apart clean
  let firsts := ((mergedPairs world west east).map Prod.fst).reverse
  let seconds := ((mergedPairs world west east).map Prod.snd).reverse
  have firstEnds (queue : ι) (member : queue ∈ firsts) :
      Ends (mergedPairs world west east) queue := by
    obtain ⟨pair, pairIn, rfl⟩ := mem_map.mp (mem_reverse.mp member)
    exact ⟨pair, pairIn, .inl rfl⟩
  have secondEnds (queue : ι) (member : queue ∈ seconds) :
      Ends (mergedPairs world west east) queue := by
    obtain ⟨pair, pairIn, rfl⟩ := mem_map.mp (mem_reverse.mp member)
    exact ⟨pair, pairIn, .inr rfl⟩
  have unlinked (queue : ι) (isEnd : Ends (mergedPairs world west east) queue) :=
    ran.merging.unlinked mergeable.apart clean isEnd
  obtain ⟨between, eastLeft, westDestroyed, eastDestroyed⟩ := ran.destroyed
  -- the merged queues have no link left, so that destroying moves none
  obtain ⟨_, westDone, westEmptied⟩ :=
    @destroyQueues_of_unlinked ι σ _ mid ops firsts
      (fun queue member => unlinked queue (firstEnds queue member)) (fun queue member =>
        ran.merging.friendless queue (firstEnds queue member)) west
  rw [westDestroyed] at westDone
  cases westDone
  obtain ⟨_, eastDone, eastEmptied⟩ :=
    @destroyQueues_of_unlinked ι σ _ between ops seconds (fun queue member side index => by
        rw [westEmptied.shape.linkAt]
        exact unlinked queue (secondEnds queue member) side index)
      (fun queue member => by
        rw [westEmptied.friend]
        exact ran.merging.friendless queue (secondEnds queue member)) east
  rw [eastDestroyed] at eastDone
  cases eastDone
  have shape := westEmptied.shape.trans eastEmptied.shape
  have samePolls : result.world.polls = world.polls :=
    (eastEmptied.polls.trans westEmptied.polls).trans ran.merging.kept.polls
  have firsts_iff (queue : ι) (westIn : queue ∈ west.all) :
      queue ∈ firsts ↔ CrossQueue world west east queue := by
    rw [← mergeable.ends_mergedPairs_iff]
    refine ⟨firstEnds queue, ?_⟩
    rintro ⟨pair, pairIn, rfl | rfl⟩
    · exact mem_reverse.mpr (mem_map_of_mem pairIn)
    · have cross := mergeable.mem_mergedPairs_iff.mp pairIn
      exact absurd cross.eastIn (mergeable.disjoint pair.2 westIn)
  have all (brick : ι) : brick ∈ (firsts.foldl (graphPop mid.polls) west).all ↔
        brick ∈ west.all ∧ ¬ CrossQueue world west east brick := by
    rw [mem_popped_all _ mergeable.westWhole.distinct]
    exact and_congr_right (fun westIn => not_congr (firsts_iff brick westIn))
  exact
    { kept := ran.merging.kept
      linked := linked
      shape := shape
      all := all
      polled := by
        intro brick isPolled
        rw [mem_popped_pollable _ mergeable.westWhole.polledOnce _ (fun queue member => by
            obtain ⟨other, isFirst | isSecond⟩ :=
              mergeable.ends_mergedPairs_iff.mp (firstEnds queue member)
            · rw [ran.merging.kept.polls]
              exact mergeable.queues.polled queue isFirst.westQueue
            · rw [ran.merging.kept.polls]
              exact mergeable.queues.polled queue isSecond.eastQueue)]
          at isPolled
        rw [mem_popped_all _ mergeable.westWhole.distinct]
        exact ⟨((mergeable.westWhole.polled brick).mp isPolled.1).1, isPolled.2⟩
      explored := by
        rw [← shape.explore, ← samePolls]
        exact ran.explored }

end Run

section Outcome

variable [DecidableEq ι] [Fintype ι] {first : List ι → Option ι}
  {rounds : Nat} {world mid : World ι σ} {west east westLeft : PgGraph ι} {result : MergeResult ι σ}

theorem Mergeable.clean_iff (mergeable : Mergeable world west east) :
    Clean (LinkedOn world.bricks) (mergedPairs world west east) ↔ ∀ q1 q2 n1 n2,
        CrossPair world west east q1 q2 →
        Adjacent world.bricks q1 n1 →
        Adjacent world.bricks q2 n2 →
        ¬ CrossQueue world west east n1 ∧ ¬ CrossQueue world west east n2 := by
  unfold Clean
  simp only [Prod.forall, mergeable.mem_mergedPairs_iff,
    mergeable.ends_mergedPairs_iff, touches_linkedOn_iff]
  exact ⟨fun clean q1 q2 n1 n2 cross => clean q1 q2 cross n1 n2,
    fun inner q1 q2 cross n1 n2 => inner q1 q2 n1 n2 cross⟩

namespace MergedCleanly

variable (cleanly : MergedCleanly first rounds world west east result mid westLeft)
  (mergeable : Mergeable world west east)

include cleanly mergeable

/-- Which sides are linked after the merge. -/
theorem linkedOn_iff {brick other : ι} {side : Side} :
    LinkedOn result.world.bricks brick side other ↔
      (LinkedOn world.bricks brick side other ∧ ¬ CrossQueue world west east brick ∧
          ¬ CrossQueue world west east other) ∨
        ∃ q1 q2, CrossPair world west east q1 q2 ∧ ∃ n1 n2, Adjacent world.bricks q1 n1 ∧
                Adjacent world.bricks q2 n2 ∧
                (brick = n1 ∧ side = .east ∧ other = n2 ∨
                  brick = n2 ∧ side = .west ∧ other = n1) := by
  have same : LinkedOn result.world.bricks brick side other ↔
        LinkedOn mid.bricks brick side other := by
    unfold LinkedOn
    simp only [cleanly.shape.linkAt]
  rw [same, cleanly.linked]
  unfold spliceAll
  simp only [Prod.exists, mergeable.mem_mergedPairs_iff,
    mergeable.ends_mergedPairs_iff, touches_linkedOn_iff]

variable {one : ι}

/-- The bricks that are linked after the loop. -/
theorem adjacent_iff {other : ι} :
    Adjacent mid.bricks one other ↔ JoinedBy world west east one other := by
  have same : Adjacent mid.bricks one other ↔
      ∃ side, LinkedOn result.world.bricks one side other := by
    unfold LinkedOn Adjacent
    simp only [cleanly.shape.linkAt]
  rw [same]
  simp only [cleanly.linkedOn_iff mergeable]
  constructor
  · rintro ⟨side, ⟨kept, free⟩ | ⟨q1, q2, cross, n1, n2, on1, on2, made⟩⟩
    · exact .inl ⟨⟨side, kept⟩, free⟩
    · rcases made with ⟨rfl, _, rfl⟩ | ⟨rfl, _, rfl⟩
      · exact .inr ⟨q1, q2, cross, .inl ⟨on1, on2⟩⟩
      · exact .inr ⟨q1, q2, cross, .inr ⟨on1, on2⟩⟩
  · rintro (⟨⟨side, kept⟩, free⟩ | ⟨q1, q2, cross, ⟨on1, on2⟩ | ⟨on1, on2⟩⟩)
    · exact ⟨side, .inl ⟨kept, free⟩⟩
    · exact ⟨.east, .inr ⟨q1, q2, cross, one, other, on1, on2, .inl ⟨rfl, rfl, rfl⟩⟩⟩
    · exact ⟨.west, .inr ⟨q1, q2, cross, other, one, on1, on2, .inr ⟨rfl, rfl, rfl⟩⟩⟩

theorem connected_iff {other : ι} :
    Connected mid.bricks one other ↔ ReflTransGen (JoinedBy world west east) one other := by
  have same : Adjacent mid.bricks = JoinedBy world west east := by
    funext brick neighbour
    exact propext (cleanly.adjacent_iff mergeable)
  unfold Connected
  rw [same]

/-- The neighbours are joined on their sides if these are the right ones. -/
theorem joined_iff :
    (∀ q1 q2 n1 n2 side1 side2, CrossPair world west east q1 q2 →
        LinkedOn world.bricks n1 side1 q1 →
        LinkedOn world.bricks n2 side2 q2 →
        LinkedOn result.world.bricks n1 side1 n2 ∧ LinkedOn result.world.bricks n2 side2 n1) ↔
      ∀ q1 q2 n1 n2 side1 side2, CrossPair world west east q1 q2 →
        LinkedOn world.bricks n1 side1 q1 →
        LinkedOn world.bricks n2 side2 q2 →
        side1 = .east ∧ side2 = .west := by
  have back := mergeable.invariant.simple.back
  constructor
  · intro joined q1 q2 n1 n2 side1 side2 cross linked1 linked2
    obtain ⟨there, andBack⟩ := joined q1 q2 n1 n2 side1 side2 cross linked1 linked2
    rw [cleanly.linkedOn_iff mergeable] at there andBack
    have west1 : n1 ∈ west.all := (mergeable.same_graph ⟨side1, linked1⟩).1.mpr cross.westIn
    have east2 : n2 ∈ east.all := (mergeable.same_graph ⟨side2, linked2⟩).2.mpr cross.eastIn
    -- a link between the graphs is one that the merge made
    have notEast1 := mergeable.disjoint n1 west1
    have notWest2 : n2 ∉ west.all := fun westIn => mergeable.disjoint n2 westIn east2
    refine ⟨?_, ?_⟩
    · rcases there with ⟨kept, _⟩ | ⟨p1, p2, other, m1, m2, on1, on2, ⟨_, isEast, _⟩ | ⟨rfl, _, _⟩⟩
      · exact absurd ((mergeable.same_graph ⟨side1, kept⟩).1.mp west1) notWest2
      · exact isEast
      · exact absurd ((mergeable.same_graph on2).2.mp other.eastIn) notEast1
    · rcases andBack with ⟨kept, _⟩ |
        ⟨p1, p2, other, m1, m2, on1, on2, ⟨rfl, _, _⟩ | ⟨_, isWest, _⟩⟩
      · exact absurd ((mergeable.same_graph ⟨side2, kept⟩).2.mp east2) notEast1
      · exact absurd ((mergeable.same_graph on1).1.mp other.westIn) notWest2
      · exact isWest
  · intro sides q1 q2 n1 n2 side1 side2 cross linked1 linked2
    obtain ⟨rfl, rfl⟩ := sides q1 q2 n1 n2 side1 side2 cross linked1 linked2
    have on1 := back n1 q1 ⟨_, linked1⟩
    have on2 := back n2 q2 ⟨_, linked2⟩
    rw [cleanly.linkedOn_iff mergeable, cleanly.linkedOn_iff mergeable]
    exact ⟨.inr ⟨q1, q2, cross, n1, n2, on1, on2, .inl ⟨rfl, rfl, rfl⟩⟩,
      .inr ⟨q1, q2, cross, n1, n2, on1, on2, .inr ⟨rfl, rfl, rfl⟩⟩⟩

omit cleanly in
/-- What is joined to a brick that remains does remain. -/
theorem remains_of_joined (clean : Clean (LinkedOn world.bricks) (mergedPairs world west east))
    {other : ι} (remains : Remains world west east one)
    (joined : ReflTransGen (JoinedBy world west east) one other) :
    Remains world west east other := by
  induction joined with
  | refl => exact remains
  | @tail between other _ last ih =>
    rcases last with ⟨adjacent, _, free⟩ | ⟨q1, q2, cross, ⟨on1, on2⟩ | ⟨on1, on2⟩⟩
    · have same := mergeable.same_graph adjacent
      exact ⟨ih.1.imp same.1.mp same.2.mp, free⟩
    · have free := mergeable.clean_iff.mp clean q1 q2 _ _ cross on1 on2
      exact ⟨.inr ((mergeable.same_graph on2).2.mp cross.eastIn), free.2⟩
    · have free := mergeable.clean_iff.mp clean q1 q2 _ _ cross on1 on2
      exact ⟨.inl ((mergeable.same_graph on1).1.mp cross.westIn), free.1⟩

/-- The exploration fills the graph with what is joined to its first brick. -/
theorem all_of_started (clean : Clean (LinkedOn world.bricks) (mergedPairs world west east))
    (chooses : Chooses first) (enough : Fintype.card ι ≤ rounds) (notEmpty : westLeft.all ≠ []) :
    ∃ start ∈ westLeft.all, ∀ brick, brick ∈ result.graph.all ↔
          ReflTransGen (JoinedBy world west east) start brick := by
  obtain ⟨start, picked, pickable⟩ := exists_picked chooses notEmpty
  have startIn := pickable.mem cleanly.polled
  have startWest := (cleanly.all start).mp startIn
  have inGraphs {brick : ι} (connected : Connected mid.bricks start brick) :
      brick ∈ west.all ∨ brick ∈ east.all := by
    rw [cleanly.connected_iff mergeable] at connected
    exact (remains_of_joined mergeable clean ⟨.inl startWest.1, startWest.2⟩ connected).1
  have names : DistinctNames mid.bricks start := by
    intro one other oneIn otherIn same
    rw [cleanly.kept.name, cleanly.kept.name] at same
    exact mergeable.names one other (inGraphs oneIn) (inGraphs otherIn) same
  obtain ⟨filled, returned, holds⟩ :=
    pgGraphExplorePtr_of_distinct cleanly.kept.invariant world.polls first westLeft enough names
  have explored := cleanly.explored
  rw [pgGraphExplorePtr_of_picked _ _ _ picked, returned] at explored
  cases explored
  refine ⟨start, startIn, fun brick => ?_⟩
  rw [holds.mem, cleanly.connected_iff mergeable]

omit mergeable in
/-- Without a brick to start from, the graph stays empty. -/
theorem all_of_nothing (nothing : westLeft.all = []) : result.graph.all = [] := by
  have noPolled : westLeft.pollable = [] := by
    rw [eq_nil_iff_forall_not_mem]
    intro brick isPolled
    have member := cleanly.polled brick isPolled
    rw [nothing] at member
    exact absurd member not_mem_nil
  have explored := cleanly.explored
  unfold pgGraphExplorePtr getAnyBrick at explored
  rw [noPolled, nothing] at explored
  simp only [↓reduceIte, Option.or_none] at explored
  cases explored
  exact nothing

/-- The graph holds all that remains when one exploration reaches it. -/
theorem all_iff (clean : Clean (LinkedOn world.bricks) (mergedPairs world west east))
    (chooses : Chooses first) (enough : Fintype.card ι ≤ rounds) :
    (∀ brick, brick ∈ result.graph.all ↔ Remains world west east brick) ↔
      (∀ one other, Remains world west east one → Remains world west east other →
          ReflTransGen (JoinedBy world west east) one other) ∧
        ((∀ brick ∈ west.all, CrossQueue world west east brick) →
          ∀ brick ∈ east.all, CrossQueue world west east brick) := by
  by_cases notEmpty : westLeft.all = []
  · -- nothing is left of the west graph
    have allCross (brick : ι) (westIn : brick ∈ west.all) :
        CrossQueue world west east brick := by
      by_contra notCross
      have left := (cleanly.all brick).mpr ⟨westIn, notCross⟩
      rw [notEmpty] at left
      exact absurd left not_mem_nil
    rw [cleanly.all_of_nothing notEmpty]
    constructor
    · intro none
      have noneRemains (brick : ι) : ¬ Remains world west east brick :=
        fun remains => not_mem_nil ((none brick).mpr remains)
      refine ⟨fun one _ remains => absurd remains (noneRemains one), ?_⟩
      intro _ brick eastIn
      by_contra notCross
      exact noneRemains brick ⟨.inr eastIn, notCross⟩
    · rintro ⟨_, started⟩ brick
      refine ⟨fun member => absurd member not_mem_nil, ?_⟩
      rintro ⟨westIn | eastIn, notCross⟩
      · exact absurd (allCross brick westIn) notCross
      · exact absurd (started allCross brick eastIn) notCross
  · obtain ⟨start, startIn, mem⟩ := cleanly.all_of_started mergeable clean chooses enough notEmpty
    have startWest := (cleanly.all start).mp startIn
    have startRemains : Remains world west east start := ⟨.inl startWest.1, startWest.2⟩
    constructor
    · intro all
      refine ⟨?_, fun allCross => absurd (allCross start startWest.1) startWest.2⟩
      intro one other oneRemains otherRemains
      have toOne := (mem one).mp ((all one).mpr oneRemains)
      have toOther := (mem other).mp ((all other).mpr otherRemains)
      rw [← cleanly.connected_iff mergeable] at toOne toOther ⊢
      exact (toOne.symm cleanly.kept.invariant).trans toOther
    · rintro ⟨connected, _⟩ brick
      rw [mem]
      exact ⟨remains_of_joined mergeable clean startRemains, connected start brick startRemains⟩

end MergedCleanly

end Outcome

/--
A merge that returns 0 keeps every brick and every side exactly when the merged
queues were linked on the sides that it links, none of their neighbours is
merged away, and what remains is one piece with a brick of the west graph.
-/
theorem graph_merge_keeps_iff [DecidableEq ι] [Fintype ι] {ops : BrickOps ι σ}
    {first : List ι → Option ι} (chooses : Chooses first) {rounds : Nat}
    (enough : Fintype.card ι ≤ rounds) {world : World ι σ} {west east : PgGraph ι}
    (mergeable : Mergeable world west east) {result : MergeResult ι σ}
    (merges : pgGraphMerge ops first rounds world west east = .ok (some result))
    (succeeds : result.error = none) :
    Merged world west east result ↔ MergesWell world west east := by
  obtain ⟨mid, westLeft, ran⟩ := pgGraphMerge_ran mergeable merges succeeds
  constructor
  · intro merged
    have clean := ran.clean_of_merged mergeable merged
    have cleanly := ran.cleanly mergeable clean
    obtain ⟨connected, started⟩ := (cleanly.all_iff mergeable clean chooses enough).mp merged.all
    exact
      { sides := (cleanly.joined_iff mergeable).mp merged.joined
        inner := mergeable.clean_iff.mp clean
        connected := connected
        started := started }
  · intro well
    have clean := mergeable.clean_iff.mpr well.inner
    have cleanly := ran.cleanly mergeable clean
    exact
      { all :=
          (cleanly.all_iff mergeable clean chooses enough).mpr ⟨well.connected, well.started⟩
        joined := (cleanly.joined_iff mergeable).mpr well.sides }

local instance hubsFour : NeZero 4 := ⟨by decide⟩

/-- Two hubs and two queues, before any link is made. -/
def queuedHubs : Graph (Fin 4) Unit where
  brick := withQueues hubs.brick hubNames 2 3
  priv := fun _ => ()

/-- The hubs as a split leaves them, each behind its queue. -/
def hubsApart : Graph (Fin 4) Unit :=
  (queuedHubs.after (quietOps (Fin 4)) (.link (some 0) (some 2))).after
    (quietOps (Fin 4)) (.link (some 3) (some 1))

/-- The hubs with their queues on the other sides. -/
def hubsTurned : Graph (Fin 4) Unit :=
  (queuedHubs.after (quietOps (Fin 4)) (.link (some 2) (some 0))).after
    (quietOps (Fin 4)) (.link (some 1) (some 3))

/-- The world of the hubs whose queues are friends. -/
def friendWorld (links : Graph (Fin 4) Unit) : World (Fin 4) Unit where
  links := links
  polls := fun address => decide (2 ≤ address)
  isQueue := fun address => decide (2 ≤ address)
  friend := fun address => if address = 2 then some 3 else if address = 3 then some 2 else none

def westHub : PgGraph (Fin 4) where
  name := "west"
  all := [0, 2]
  pollable := [2]

def eastHub : PgGraph (Fin 4) where
  name := "east"
  all := [1, 3]
  pollable := [3]

theorem queuedHubs_invariant : LinkInvariant queuedHubs.brick := by
  have places : QueuePlaces hubs.brick 0 1 2 3 :=
    { westUnlinked := hubs_invariant.unlinked_of_refcount 2 rfl
      eastUnlinked := hubs_invariant.unlinked_of_refcount 3 rfl
      bricksDiffer := by decide
      queuesDiffer := by decide
      westNotWest := by decide
      westNotEast := by decide
      eastNotWest := by decide
      eastNotEast := by decide }
  exact places.invariant_made hubs_invariant

theorem hubsApart_invariant : LinkInvariant hubsApart.brick :=
  (queuedHubs_invariant.after _ _).after _ _

theorem hubsTurned_invariant : LinkInvariant hubsTurned.brick :=
  (queuedHubs_invariant.after _ _).after _ _

variable {links : Graph (Fin 4) Unit}

theorem hubs_mergeable (invariant : LinkInvariant links.brick)
    (single : ∀ address, 2 ≤ address → (links.brick address).type = .monopole)
    (closed : ∀ list ∈ [westHub.all, eastHub.all], ∀ address ∈ list, ∀ edge ∈ edgesVisited
        (links.brick address), ∀ other, edge.link = some other → other ∈ list)
    (names : ∀ one other, (links.brick one).name = (links.brick other).name → one = other) :
    Mergeable (friendWorld links) westHub eastHub := by
  have whole (graph : PgGraph (Fin 4)) (isHub : graph.all ∈ [westHub.all, eastHub.all])
      (distinct : graph.all.Nodup) (polledOnce : graph.pollable.Nodup) (polled : ∀ brick : Fin 4,
          brick ∈ graph.pollable ↔ brick ∈ graph.all ∧ decide (2 ≤ brick) = true) :
      Whole (friendWorld links) graph := by
    refine ⟨distinct, polledOnce, polled, ?_⟩
    intro brick member other adjacent
    obtain ⟨edge, visited, isLink⟩ :=
      (mem_edgesVisited_iff (invariant.counted brick) other).mpr adjacent
    exact closed graph.all isHub brick member edge visited other isLink
  exact
    { invariant := invariant
      queues :=
        { single := fun queue isQueue => single queue (of_decide_eq_true isQueue)
          polled := fun _ isQueue => isQueue
          mutualFriends := by
            show ∀ one other : Fin 4,
              (if one = 2 then some 3 else if one = 3 then some 2 else none) = some other →
                (if other = 2 then some 3
                  else if other = 3 then some 2 else none) = some one
            decide }
      westWhole := whole westHub (by decide) (by decide) (by decide) (by decide)
      eastWhole := whole eastHub (by decide) (by decide) (by decide) (by decide)
      disjoint := by decide
      names := fun one other _ _ same => names one other same }

theorem hubsApart_mergeable : Mergeable (friendWorld hubsApart) westHub eastHub :=
  hubs_mergeable hubsApart_invariant (by decide +kernel) (by decide +kernel) (by decide +kernel)

theorem hubsTurned_mergeable : Mergeable (friendWorld hubsTurned) westHub eastHub :=
  hubs_mergeable hubsTurned_invariant (by decide +kernel) (by decide +kernel) (by decide +kernel)

/-- What is seen of a merge. -/
def mergeView {β : Type} (view : MergeResult ι σ → β)
    (ended : Except Abort (Option (MergeResult ι σ))) : Option β :=
  ended.toOption.join.map view

theorem exists_of_mergeView {β : Type} {view : MergeResult ι σ → β}
    {ended : Except Abort (Option (MergeResult ι σ))} {value : β}
    (seen : mergeView view ended = some value) :
    ∃ result, ended = .ok (some result) ∧ view result = value := by
  unfold mergeView at seen
  rcases ended with failure | _ | result
  · cases seen
  · cases seen
  · exact ⟨result, rfl, Option.some.inj seen⟩

/-- The only friends across the graphs are the two queues. -/
theorem hubs_crossPair {q1 q2 : Fin 4} :
    CrossPair (friendWorld links) westHub eastHub q1 q2 ↔ q1 = 2 ∧ q2 = 3 := by
  constructor
  · intro cross
    have friends : (if q1 = 2 then some 3 else if q1 = 3 then some 2 else none) = some q2 :=
      cross.friends
    have westIn : q1 ∈ [0, 2] := cross.westIn
    clear cross
    revert q1 q2
    decide
  · rintro ⟨rfl, rfl⟩
    exact ⟨by decide, by decide, rfl, rfl, rfl⟩

theorem hubs_crossQueue {queue : Fin 4} :
    CrossQueue (friendWorld links) westHub eastHub queue ↔ 2 ≤ queue := by
  unfold CrossQueue
  simp only [hubs_crossPair]
  revert queue
  decide

/-- The neighbours of the queues of the hubs. -/
theorem hubsApart_neighbours {neighbour : Fin 4} :
    (Adjacent hubsApart.brick 2 neighbour ↔ neighbour = 0) ∧
      (Adjacent hubsApart.brick 3 neighbour ↔ neighbour = 1) := by
  have first :=
    @queueLink_eq_some_iff_adjacent _ hubsApart.brick 2 neighbour
      (show (hubsApart.brick 2).type = .monopole by decide +kernel)
  have second :=
    @queueLink_eq_some_iff_adjacent _ hubsApart.brick 3 neighbour
      (show (hubsApart.brick 3).type = .monopole by decide +kernel)
  rw [show queueLink (hubsApart.brick 2) = some 0 by decide +kernel,
    Option.some.injEq, touches_linkedOn_iff] at first
  rw [show queueLink (hubsApart.brick 3) = some 1 by decide +kernel,
    Option.some.injEq, touches_linkedOn_iff] at second
  exact ⟨first.symm.trans eq_comm, second.symm.trans eq_comm⟩

theorem hubsApart_well : MergesWell (friendWorld hubsApart) westHub eastHub := by
  have joins : JoinedBy (friendWorld hubsApart) westHub eastHub 0 1 ∧
        JoinedBy (friendWorld hubsApart) westHub eastHub 1 0 := by
    have cross := (@hubs_crossPair hubsApart 2 3).mpr ⟨rfl, rfl⟩
    have on2 := hubsApart_neighbours.1.mpr rfl
    have on3 := hubsApart_neighbours.2.mpr rfl
    exact ⟨.inr ⟨2, 3, cross, .inl ⟨on2, on3⟩⟩, .inr ⟨2, 3, cross, .inr ⟨on2, on3⟩⟩⟩
  have isHub {brick : Fin 4} (remains : Remains (friendWorld hubsApart) westHub eastHub brick) :
      brick = 0 ∨ brick = 1 := by
    have notCross := remains.2
    rw [hubs_crossQueue] at notCross
    clear remains
    revert brick
    decide
  refine ⟨?_, ?_, ?_, ?_⟩
  · intro q1 q2 n1 n2 side1 side2 cross linked1 linked2
    obtain ⟨rfl, rfl⟩ := hubs_crossPair.mp cross
    rw [hubsApart_invariant.side_of_linkedOn (by decide +kernel) linked1,
      hubsApart_invariant.side_of_linkedOn (by decide +kernel) linked2]
    decide +kernel
  · intro q1 q2 n1 n2 cross on1 on2
    obtain ⟨rfl, rfl⟩ := hubs_crossPair.mp cross
    rw [hubsApart_neighbours.1.mp on1, hubsApart_neighbours.2.mp on2,
      hubs_crossQueue, hubs_crossQueue]
    decide
  · intro one other oneRemains otherRemains
    rcases isHub oneRemains with rfl | rfl
    · rcases isHub otherRemains with rfl | rfl
      · exact .refl
      · exact .single joins.1
    · rcases isHub otherRemains with rfl | rfl
      · exact .single joins.2
      · exact .refl
  · intro allCross
    exact absurd (hubs_crossQueue.mp (allCross 0 (by decide))) (by decide)

/-- The hubs are merged as they were before a split. -/
theorem graph_merge_keeps_iff_hubs :
    ∃ result, pgGraphMerge (quietOps (Fin 4)) List.head? 4 (friendWorld hubsApart) westHub eastHub =
          .ok (some result) ∧
        result.error = none ∧
        Merged (friendWorld hubsApart) westHub eastHub result := by
  obtain ⟨result, merges, succeeds⟩ :=
    exists_of_mergeView (show mergeView MergeResult.error
            (pgGraphMerge (quietOps (Fin 4)) List.head? 4 (friendWorld hubsApart) westHub eastHub) =
          some none by decide +kernel)
  exact ⟨result, merges, succeeds,
    (graph_merge_keeps_iff chooses_head (le_refl 4) hubsApart_mergeable
      merges succeeds).mpr hubsApart_well⟩

/--
Hubs whose queues are on their other sides: the merge returns 0 and links the
east side of the one hub to the west side of the other.
-/
theorem merge_turns_sides :
    Mergeable (friendWorld hubsTurned) westHub eastHub ∧
      CrossPair (friendWorld hubsTurned) westHub eastHub 2 3 ∧
      (hubsTurned.brick 0).linkAt .west 0 = some (2, 0) ∧
      (hubsTurned.brick 1).linkAt .east 0 = some (3, 0) ∧
      ∃ result, pgGraphMerge (quietOps (Fin 4)) List.head? 4 (friendWorld hubsTurned)
            westHub eastHub =
            .ok (some result) ∧
          result.error = none ∧
          (result.world.bricks 0).linkAt .east 0 = some (1, 0) ∧
          ¬ Merged (friendWorld hubsTurned) westHub eastHub result := by
  have cross := (@hubs_crossPair hubsTurned 2 3).mpr ⟨rfl, rfl⟩
  have linked1 : (hubsTurned.brick 0).linkAt .west 0 = some (2, 0) := by decide +kernel
  have linked2 : (hubsTurned.brick 1).linkAt .east 0 = some (3, 0) := by decide +kernel
  obtain ⟨result, merges, seen⟩ :=
    exists_of_mergeView (show mergeView (fun result =>
              (result.error, (result.world.bricks 0).linkAt .east 0))
            (pgGraphMerge (quietOps (Fin 4)) List.head? 4
              (friendWorld hubsTurned) westHub eastHub) =
          some (none, some (1, 0))
        by decide +kernel)
  rw [Prod.mk.injEq] at seen
  refine ⟨hubsTurned_mergeable, cross, linked1, linked2, result, merges, seen.1, seen.2, ?_⟩
  intro merged
  obtain ⟨mid, westLeft, ran⟩ := pgGraphMerge_ran hubsTurned_mergeable merges seen.1
  have clean := ran.clean_of_merged hubsTurned_mergeable merged
  have sides :=
    ((ran.cleanly hubsTurned_mergeable clean).joined_iff
      hubsTurned_mergeable).mp merged.joined 2 3 0 1 .west .east cross
      ⟨0, 0, linked1⟩ ⟨0, 0, linked2⟩
  cases sides.1

end PacketGraph
