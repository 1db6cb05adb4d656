import PacketGraph.Partition.Links

namespace PacketGraph

open Function List PartialMatching

/-!
# Taking queues out of a graph

The parts of `pg_graph_merge` that handle one queue.  A queue is a monopole, so
unlinking it breaks at most one link.  Destroying a queue that has no link any
more touches only its own reference count, which no exploration reads.
-/

variable {ι σ : Type}

section Monopole

variable {brick : Brick ι}

/-- The link of a monopole is the one that its storage holds. -/
theorem queueLink_eq_some_iff (monopole : brick.type = .monopole) {neighbour : ι} :
    queueLink brick = some neighbour ↔ ∃ side index pairIndex,
        brick.linkAt side index = some (neighbour, pairIndex) := by
  constructor
  · intro isLink
    unfold queueLink at isLink
    obtain ⟨⟨link, pairIndex⟩, read, held⟩ := Option.bind_eq_some_iff.mp isLink
    simp only at held
    subst held
    refine ⟨opsGetSide brick, 0, pairIndex, linkAt_eq_some_iff.mpr ?_⟩
    refine ⟨⟨.inr rfl, fun _ => rfl⟩, ?_⟩
    unfold pgBrickGetEdge
    rw [monopole]
    exact read
  · rintro ⟨side, index, pairIndex, linked⟩
    obtain ⟨_, read⟩ := linkAt_eq_some_iff.mp linked
    simp only [pgBrickGetEdge, monopole] at read
    unfold queueLink
    rw [read]
    rfl

/-- A monopole has a link at one place only. -/
theorem monopole_place (monopole : brick.type = .monopole)
    {side : Side} {index : Nat} {link : ι × Nat} (linked : brick.linkAt side index = some link) :
    side = opsGetSide brick ∧ index = 0 := by
  obtain ⟨⟨named, sided⟩, _⟩ := linkAt_eq_some_iff.mp linked
  refine ⟨sided monopole, named.resolve_left ?_⟩
  rw [monopole]
  exact BrickType.noConfusion

end Monopole

section Unlink

variable [DecidableEq ι] {graph : Graph ι σ} {target : ι}

/-- Unlinking a brick without links does nothing. -/
theorem pgBrickUnlink_of_unlinked (ops : BrickOps ι σ)
    (unlinked : ∀ side index, (graph.brick target).linkAt side index = none) :
    pgBrickUnlink ops graph (some target) = .ok (none, graph) := by
  unfold pgBrickUnlink pgBrickGenericUnlink
  dsimp only
  rcases pgBrickEdgeIteratorInit_stops (graph.brick target) with finished | onLink
  · exact genericUnlinkFrom_of_finished _ finished
  · cases onSide : (pgBrickEdgeIteratorInit (graph.brick target)).side with
    | none =>
      unfold EdgeIterator.onLink at onLink
      rw [onSide] at onLink
      cases onLink
    | some side =>
      obtain ⟨paired, pairIndex, read⟩ := EdgeIterator.exists_edge onSide onLink
      have linked := linkAt_of_getEdge read
      rw [unlinked] at linked
      cases linked

/-- Unlinking a monopole breaks its link. -/
theorem pgBrickUnlink_of_linked [Fintype ι] (ops : BrickOps ι σ)
    (invariant : LinkInvariant graph.brick) (monopole : (graph.brick target).type = .monopole)
    {side : Side} {index : Nat} {paired : ι} {pairIndex : Nat}
    (linked : (graph.brick target).linkAt side index = some (paired, pairIndex)) :
    pgBrickUnlink ops graph (some target) =
      breakLink ops graph target side index paired pairIndex := by
  obtain ⟨rfl, rfl⟩ := monopole_place monopole linked
  rw [pgBrickUnlink_eq ops target invariant]
  unfold Brick.places
  rw [if_pos monopole]
  unfold unlinkAlong
  rw [linked]
  dsimp only
  obtain ⟨outcome, after, broken, _⟩ :=
    breakLink_cases ops graph target (opsGetSide (graph.brick target)) 0 paired pairIndex
  rw [broken]
  cases outcome <;> rfl

end Unlink

section Shape

/-- Bricks that differ in their reference counts only. -/
def SameShape (before after : ι → Brick ι) : Prop :=
  ∀ brick, ∃ refcount released, after brick =
      { before brick with refcount := refcount, released := released }

variable {before between after : ι → Brick ι}

theorem SameShape.refl (bricks : ι → Brick ι) : SameShape bricks bricks :=
  fun _ => ⟨_, _, rfl⟩

theorem SameShape.trans (first : SameShape before between) (second : SameShape between after) :
    SameShape before after := by
  intro brick
  obtain ⟨_, _, isBetween⟩ := first brick
  obtain ⟨refcount, released, isAfter⟩ := second brick
  rw [isBetween] at isAfter
  exact ⟨refcount, released, isAfter⟩

/-- What does not read the reference count is the same. -/
theorem SameShape.apply (shape : SameShape before after) {β : Type} (view : Brick ι → β)
    (blind :
      ∀ brick refcount released, view { brick with refcount := refcount, released := released } =
          view brick)
    (brick : ι) :
    view (after brick) = view (before brick) := by
  obtain ⟨refcount, released, isAfter⟩ := shape brick
  rw [isAfter, blind]

theorem SameShape.linkAt (shape : SameShape before after) (brick : ι) (side : Side) (index : Nat) :
    (after brick).linkAt side index = (before brick).linkAt side index :=
  shape.apply (fun brick => brick.linkAt side index) (fun _ _ _ => rfl) brick

theorem SameShape.name (shape : SameShape before after) (brick : ι) :
    (after brick).name = (before brick).name :=
  shape.apply Brick.name (fun _ _ _ => rfl) brick

section Blind

variable (brick : Brick ι) (refcount : Int) (released : Nat)

/-- The edge iterator does not read the reference count. -/
theorem edgeIteratorNextUpTo_blind (rounds : Nat) (it : EdgeIterator) :
    edgeIteratorNextUpTo { brick with refcount := refcount, released := released } rounds it =
      edgeIteratorNextUpTo brick rounds it := by
  induction rounds generalizing it with
  | zero => rfl
  | succ rounds ih =>
    unfold edgeIteratorNextUpTo
    rw [show it.bump { brick with refcount := refcount, released := released } =
        it.bump brick from rfl]
    dsimp only
    rw [ih]
    rfl

theorem edgesVisitedFrom_blind (rounds : Nat) (it : EdgeIterator) :
    edgesVisitedFrom { brick with refcount := refcount, released := released } rounds it =
      edgesVisitedFrom brick rounds it := by
  induction rounds generalizing it with
  | zero => rfl
  | succ rounds ih =>
    have sameNext : pgBrickEdgeIteratorNext
            { brick with refcount := refcount, released := released } it =
          pgBrickEdgeIteratorNext brick it :=
      edgeIteratorNextUpTo_blind brick refcount released _ it
    unfold edgesVisitedFrom
    rw [sameNext, ih]
    rfl

theorem edgesVisited_blind :
    edgesVisited { brick with refcount := refcount, released := released } =
      edgesVisited brick := by
  have sameInit : pgBrickEdgeIteratorInit
          { brick with refcount := refcount, released := released } =
        pgBrickEdgeIteratorInit brick := by
    unfold pgBrickEdgeIteratorInit pgBrickEdgeIteratorNext
    dsimp only
    rw [edgeIteratorNextUpTo_blind]
    rfl
  unfold edgesVisited
  rw [sameInit]
  exact edgesVisitedFrom_blind brick refcount released _ _

end Blind

section

variable (shape : SameShape before after)

include shape

theorem SameShape.edgesVisited (brick : ι) :
    edgesVisited (after brick) = edgesVisited (before brick) :=
  shape.apply PacketGraph.edgesVisited edgesVisited_blind brick

theorem SameShape.eastLinks [DecidableEq ι] (west east : ι) :
    eastLinks after west east = eastLinks before west east := by
  unfold PacketGraph.eastLinks
  simp only [shape.linkAt]
  rw [shape.apply (fun brick => brick.east.max) (fun _ _ _ => rfl) west]

theorem SameShape.pushAll (polls : ι → Bool) (graph : PgGraph ι) (pushed : List ι)
    : pushAll after polls graph pushed = pushAll before polls graph pushed := by
  induction pushed generalizing graph with
  | nil => rfl
  | cons brick rest ih =>
    have samePush : pgGraphPush after polls graph brick = pgGraphPush before polls graph brick := by
      unfold pgGraphPush pgGraphGet
      simp only [shape.name]
    unfold PacketGraph.pushAll
    rw [samePush]
    split
    · rfl
    · exact ih _

/-- Explorations do not read reference counts. -/
theorem SameShape.explore [DecidableEq ι] (polls : ι → Bool) (first : List ι → Option ι)
    (rounds : Nat) (graph : PgGraph ι) (brick : Option ι) :
    pgGraphExplorePtr after polls first rounds graph brick =
      pgGraphExplorePtr before polls first rounds graph brick := by
  have sameNeighbours : exploreAddNeighbours after = exploreAddNeighbours before := by
    funext todo done brick
    unfold exploreAddNeighbours
    rw [shape.edgesVisited]
  have sameDone : exploreDone after rounds = exploreDone before rounds := by
    funext brick
    unfold exploreDone
    rw [sameNeighbours]
  have samePush : PacketGraph.pushAll after polls (emptyGraph graph) =
        PacketGraph.pushAll before polls (emptyGraph graph) :=
    funext (shape.pushAll polls (emptyGraph graph))
  unfold pgGraphExplorePtr
  rw [sameDone, samePush]

end

end Shape

section Unfriend

variable [DecidableEq ι] (world : World ι σ) (queue : ι)

theorem links_pgQueueUnfriend : (pgQueueUnfriend world queue).links = world.links := by
  unfold pgQueueUnfriend
  split <;> rfl

theorem polls_pgQueueUnfriend : (pgQueueUnfriend world queue).polls = world.polls := by
  unfold pgQueueUnfriend
  split <;> rfl

theorem isQueue_pgQueueUnfriend : (pgQueueUnfriend world queue).isQueue = world.isQueue := by
  unfold pgQueueUnfriend
  split <;> rfl

variable {world queue}

/-- Taking a queue away from its friend. -/
theorem friend_pgQueueUnfriend {other : ι} (friends : world.friend queue = some other) :
    (pgQueueUnfriend world queue).friend = update (update world.friend other none) queue none := by
  unfold pgQueueUnfriend
  rw [friends]

end Unfriend

section Destroy

variable [DecidableEq ι] {world : World ι σ} {queue : ι}

/-- What destroying queues without links leaves. -/
structure Emptied (before after : World ι σ) (queues : List ι) : Prop where
  shape : SameShape before.bricks after.bricks
  others : ∀ brick, brick ∉ queues → after.bricks brick = before.bricks brick
  polls : after.polls = before.polls
  isQueue : after.isQueue = before.isQueue
  friend : after.friend = before.friend

/-- Destroying a queue without links and friend only releases it. -/
theorem destroyBrick_of_unlinked (ops : BrickOps ι σ)
    (unlinked : ∀ side index, (world.bricks queue).linkAt side index = none)
    (friendless : world.friend queue = none) :
    ∃ after, destroyBrick ops world queue = .ok after ∧ Emptied world after [queue] := by
  let links := pgBrickDecref world.links queue
  have destroyed : pgBrickDestroy ops world.links (some queue) = .ok links := by
    unfold pgBrickDestroy
    rw [pgBrickUnlink_of_unlinked ops unlinked]
  have emptied : Emptied world (world.withLinks links) [queue] :=
    { shape := by
        intro brick
        show ∃ refcount released, (pgBrickDecref world.links queue).brick brick = _
        unfold pgBrickDecref Graph.modify
        dsimp only
        rw [update_apply]
        split
        · rename_i isQueue
          subst isQueue
          split
          · exact ⟨_, _, rfl⟩
          · exact ⟨_, _, rfl⟩
        · exact ⟨_, _, rfl⟩
      others := by
        intro brick isOther
        exact brick_pgBrickDecref_of_ne world.links (fun same => isOther (mem_singleton.mpr same))
      polls := rfl
      isQueue := rfl
      friend := rfl }
  have unfriended : pgQueueUnfriend (world.withLinks links) queue = world.withLinks links := by
    unfold pgQueueUnfriend
    rw [show (world.withLinks links).friend queue = none from friendless]
  refine ⟨world.withLinks links, ?_, emptied⟩
  unfold destroyBrick
  rw [destroyed]
  dsimp only
  rw [unfriended, ite_self]

/-- Destroying several such queues pops and releases all of them. -/
theorem destroyQueues_of_unlinked (ops : BrickOps ι σ) {queues : List ι}
    (unlinked : ∀ queue ∈ queues, ∀ side index, (world.bricks queue).linkAt side index = none)
    (friendless : ∀ queue ∈ queues, world.friend queue = none) (graph : PgGraph ι) :
    ∃ after, destroyQueues ops queues world graph =
          .ok (after, queues.foldl (graphPop world.polls) graph) ∧
        Emptied world after queues := by
  induction queues generalizing world graph with
  | nil => exact ⟨world, rfl, .refl _, fun _ _ => rfl, rfl, rfl, rfl⟩
  | cons queue rest ih =>
    obtain ⟨next, destroyed, emptied⟩ :=
      destroyBrick_of_unlinked ops (unlinked queue mem_cons_self) (friendless queue mem_cons_self)
    obtain ⟨after, later, laterEmptied⟩ :=
      @ih next (fun other member side index => by
          rw [emptied.shape.linkAt]
          exact unlinked other (mem_cons_of_mem _ member) side index)
        (fun other member => by
          rw [emptied.friend]
          exact friendless other (mem_cons_of_mem _ member))
        (graphPop world.polls graph queue)
    refine ⟨after, ?_, ?_⟩
    · unfold destroyQueues
      rw [destroyed]
      dsimp only
      rw [later, emptied.polls]
      rfl
    · exact
        { shape := emptied.shape.trans laterEmptied.shape
          others := by
            intro brick isOther
            rw [mem_cons, not_or] at isOther
            rw [laterEmptied.others brick isOther.2]
            exact emptied.others brick (fun same => isOther.1 (mem_singleton.mp same))
          polls := laterEmptied.polls.trans emptied.polls
          isQueue := laterEmptied.isQueue.trans emptied.isQueue
          friend := laterEmptied.friend.trans emptied.friend }

/-- The bricks of a graph after some were popped. -/
theorem mem_popped_all (polls : ι → Bool) {graph : PgGraph ι} (distinct : graph.all.Nodup)
    (queues : List ι) (brick : ι) :
    brick ∈ (queues.foldl (graphPop polls) graph).all ↔ brick ∈ graph.all ∧ brick ∉ queues := by
  induction queues generalizing graph with
  | nil => simp
  | cons queue rest ih =>
    rw [foldl_cons, ih (distinct.erase queue)]
    show brick ∈ graph.all.erase queue ∧ brick ∉ rest ↔ _
    rw [distinct.mem_erase_iff, mem_cons]
    tauto

/-- The pollable bricks of a graph after some pollable ones were popped. -/
theorem mem_popped_pollable (polls : ι → Bool) {graph : PgGraph ι} (distinct : graph.pollable.Nodup)
    (queues : List ι) (polled : ∀ queue ∈ queues, polls queue = true) (brick : ι) :
    brick ∈ (queues.foldl (graphPop polls) graph).pollable ↔
      brick ∈ graph.pollable ∧ brick ∉ queues := by
  induction queues generalizing graph with
  | nil => simp
  | cons queue rest ih =>
    have isPolled : polls queue = true := polled queue mem_cons_self
    have popped : (graphPop polls graph queue).pollable = graph.pollable.erase queue :=
      if_pos isPolled
    rw [foldl_cons, ih (by rw [popped]; exact distinct.erase queue)
      (fun other member => polled other (mem_cons_of_mem _ member)),
      popped, distinct.mem_erase_iff, mem_cons]
    tauto

end Destroy

end PacketGraph
