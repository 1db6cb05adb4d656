import PacketGraph.Brick.Destroy
import PacketGraph.Explore.Sanity

namespace PacketGraph

open Function

/-!
# Splitting a graph and merging two

`pg_graph_split` replaces a link by two queues that are friends and explores
from both of them; `pg_graph_merge` takes such queues out and links their
neighbours.

A world keeps, beside the links, what graphs and queues know of a brick: its
poll callback, whether it is a queue, and the friend of a queue.  The address
and the private state of a new queue are the environment's choice; without
them the queue cannot be made.
-/

/-- The bricks of a program, as graphs and queues see them. -/
structure World (ι σ : Type) where
  links : Graph ι σ
  polls : ι → Bool
  isQueue : ι → Bool
  friend : ι → Option ι

/-- The names that are given to `pg_graph_split`. -/
structure SplitNames where
  eastGraph : String
  westBrick : String
  eastBrick : String
  westQueue : String
  eastQueue : String
  deriving Repr, DecidableEq

/-- What a split leaves: the bricks, the old graph and the returned one. -/
structure SplitResult (ι σ : Type) where
  world : World ι σ
  graph : PgGraph ι
  east : Option (PgGraph ι)
  error : Option PgError

/-- What a merge leaves: the bricks, the west graph and the error. -/
structure MergeResult (ι σ : Type) where
  world : World ι σ
  graph : PgGraph ι
  error : Option PgError

variable {ι σ : Type}

/-- The bricks of a world. -/
abbrev World.bricks (world : World ι σ) : ι → Brick ι :=
  world.links.brick

/-- Keep what linking calls leave. -/
def World.withLinks (world : World ι σ) (links : Graph ι σ) : World ι σ :=
  { world with links := links }

section Queues

/-- `queue_config_new`. -/
def queueConfig (name : String) : BrickConfig where
  name := name
  westMax := 1
  eastMax := 1
  type := .monopole

/-- The registered operations of queues; `ready` is the new private state. -/
def queueEntry (ready : Option σ) : OpsEntry ι σ where
  name := "queue"
  stateSize := 1
  init := fun _ _ => match ready with
    | none => .error (some (pgErrorNew "Queue allocation failed"))
    | some priv => .ok priv

variable [DecidableEq ι]

/-- Put a new queue at an address. -/
def World.addQueue (world : World ι σ) (queue : ι) (brick : Brick ι) (priv : σ) : World ι σ where
  links :=
    { brick := update world.bricks queue brick
      priv := update world.links.priv queue priv }
  polls := update world.polls queue true
  isQueue := update world.isQueue queue true
  friend := update world.friend queue none

/-- `pg_queue_new`; without a slot the queue cannot be allocated. -/
def pgQueueNew (world : World ι σ) (name : String) (slot : Option (ι × σ)) :
    Except PgError (ι × World ι σ) :=
  match slot with
  | none => .error (pgErrorNew "Queue allocation failed")
  | some (queue, priv) =>
    (pgBrickNew [queueEntry (some priv)] (some "queue") (some (queueConfig name))).map
      (fun made => (queue, world.addQueue queue made.1 made.2))

/-- `pg_queue_friend`. -/
def pgQueueFriend (world : World ι σ) (first second : ι) : Option PgError × World ι σ :=
  if (world.friend first).isSome then
    (some (pgErrorNew ("Queue " ++ (world.bricks first).name ++
        " (1st arg) already has a friend")), world)
  else if (world.friend second).isSome then
    (some (pgErrorNew ("Queue " ++ (world.bricks second).name ++
        " (2nd arg) already has a friend")), world)
  else
    (none, { world with
        friend :=
          update (update world.friend first (some second)) second (some first) })

/-- `pg_queue_are_friend`. -/
def pgQueueAreFriend (world : World ι σ) (first second : ι) : Bool :=
  world.friend first = some second

/-- `pg_queue_unfriend`. -/
def pgQueueUnfriend (world : World ι σ) (queue : ι) : World ι σ :=
  match world.friend queue with
  | none => world
  | some other =>
    { world with friend := update (update world.friend other none) queue none }

/-- `pg_brick_destroy`, with `queue_destroy` when a queue is released. -/
def destroyBrick (ops : BrickOps ι σ) (world : World ι σ) (target : ι) : Except Abort (World ι σ) :=
  match pgBrickDestroy ops world.links (some target) with
  | .error failure => .error failure
  | .ok links =>
    if world.isQueue target ∧ (world.bricks target).released < (links.brick target).released then
      .ok (pgQueueUnfriend (world.withLinks links) target)
    else
      .ok (world.withLinks links)

end Queues

section Split

variable [DecidableEq ι]

/-- `pg_graph_new`. -/
def pgGraphNew (world : World ι σ) (first : List ι → Option ι) (rounds : Nat) (name : String)
    (explore : Option ι) : Option (Option (PgGraph ι) × Option PgError) :=
  let graph : PgGraph ι := { name := name, all := [], pollable := [] }
  match explore with
  | none => some (some graph, none)
  | some brick =>
    match pgGraphExplorePtr world.bricks world.polls first rounds graph (some brick)
    with
    | none => none
    | some (some failure, _) => some (none, some failure)
    | some (none, graph) => some (some graph, none)

/--
The middle of `pg_graph_split`: make two queues, link them to the bricks and
make them friends.  It returns the queues or an error, and what it leaves.
-/
def relinkThroughQueues (world : World ι σ) (w e : Option ι) (names : SplitNames)
    (westSlot eastSlot : Option (ι × σ)) : Except Abort (Except PgError (ι × ι) × World ι σ) :=
  match pgQueueNew world names.westQueue westSlot with
  | .error failure => .ok (.error failure, world)
  | .ok (qw, world) =>
    match pgQueueNew world names.eastQueue eastSlot with
    | .error failure => .ok (.error failure, world)
    | .ok (qe, world) =>
      match pgBrickLink world.links w (some qw) with
      | .error failure => .error failure
      | .ok (some failure, links) => .ok (.error failure, world.withLinks links)
      | .ok (none, links) =>
        match pgBrickLink links (some qe) e with
        | .error failure => .error failure
        | .ok (some failure, links) => .ok (.error failure, world.withLinks links)
        | .ok (none, links) =>
          match pgQueueFriend (world.withLinks links) qw qe with
          | (some failure, world) => .ok (.error failure, world)
          | (none, world) => .ok (.ok (qw, qe), world)

/-- The end of `pg_graph_split`: explore from both queues. -/
def exploreBothQueues (world : World ι σ) (first : List ι → Option ι) (rounds : Nat)
    (graph : PgGraph ι) (eastGraph : String) (qw qe : ι) : Option (SplitResult ι σ) :=
  match pgGraphExplorePtr world.bricks world.polls first rounds graph (some qw)
  with
  | none => none
  | some (some failure, graph) => some ⟨world, graph, none, some failure⟩
  | some (none, graph) =>
    (pgGraphNew world first rounds eastGraph (some qe)).map
      (fun made => ⟨world, graph, made.1, made.2⟩)

/--
`pg_graph_split`, bounded by the rounds of its explorations.

Nothing undoes the steps that were made before one that fails.
-/
def pgGraphSplit (ops : BrickOps ι σ) (first : List ι → Option ι) (rounds : Nat) (world : World ι σ)
    (graph : PgGraph ι) (names : SplitNames) (westSlot eastSlot : Option (ι × σ)) :
    Except Abort (Option (SplitResult ι σ)) :=
  let w := pgGraphGet world.bricks graph names.westBrick
  let e := pgGraphGet world.bricks graph names.eastBrick
  match pgBrickUnlinkEdge ops world.links w e with
  | .error failure => .error failure
  | .ok (some failure, links) => .ok (some ⟨world.withLinks links, graph, none, some failure⟩)
  | .ok (none, links) =>
    match relinkThroughQueues (world.withLinks links) w e names westSlot eastSlot
    with
    | .error failure => .error failure
    | .ok (.error failure, world) => .ok (some ⟨world, graph, none, some failure⟩)
    | .ok (.ok (qw, qe), world) =>
      .ok (exploreBothQueues world first rounds graph names.eastGraph qw qe)

end Split

section Merge

/-- `get_all_queues`. -/
def getAllQueues (world : World ι σ) (graph : PgGraph ι) : List ι :=
  (graph.pollable.filter world.isQueue).reverse

/-- `q->side.edge.link`. -/
def queueLink (brick : Brick ι) : Option ι :=
  brick.side.edges[0]?.bind Edge.link

variable [DecidableEq ι]

/-- Unlink a queue that had a neighbour. -/
def unlinkFrom (ops : BrickOps ι σ) (world : World ι σ) (queue : ι) (neighbour : Option ι) :
    Except Abort (Option PgError × World ι σ) :=
  match neighbour with
  | none => .ok (none, world)
  | some _ =>
    (pgBrickUnlink ops world.links (some queue)).map
      (fun ended => (ended.1, world.withLinks ended.2))

/-- `merge_queues`. -/
def mergeQueues (ops : BrickOps ι σ) (world : World ι σ) (q1 q2 : ι) :
    Except Abort (Option PgError × World ι σ) :=
  let q1Pair := queueLink (world.bricks q1)
  let q2Pair := queueLink (world.bricks q2)
  match unlinkFrom ops (pgQueueUnfriend world q1) q1 q1Pair with
  | .error failure => .error failure
  | .ok (some failure, world) => .ok (some failure, world)
  | .ok (none, world) =>
    match unlinkFrom ops world q2 q2Pair with
    | .error failure => .error failure
    | .ok (some failure, world) => .ok (some failure, world)
    | .ok (none, world) =>
      match q1Pair, q2Pair with
      | some west, some east =>
        (pgBrickLink world.links (some west) (some east)).map
          (fun ended => (ended.1, world.withLinks ended.2))
      | _, _ => .ok (none, world)

/--
The loop of `pg_graph_merge` over the queues of the west graph, with the
queues to destroy.
-/
def mergeFriends (ops : BrickOps ι σ) (eastQueues : List ι) :
    List ι → World ι σ → List ι × List ι →
      Except Abort (Option PgError × World ι σ × (List ι × List ι))
  | [], world, merged => .ok (none, world, merged)
  | hw :: rest, world, merged =>
    match eastQueues.find? (pgQueueAreFriend world hw) with
    | none => mergeFriends ops eastQueues rest world merged
    | some he =>
      match mergeQueues ops world hw he with
      | .error failure => .error failure
      | .ok (some failure, world) => .ok (some failure, world, merged)
      | .ok (none, world) => mergeFriends ops eastQueues rest world (hw :: merged.1, he :: merged.2)

/-- Pop queues from a graph and destroy them. -/
def destroyQueues (ops : BrickOps ι σ) :
    List ι → World ι σ → PgGraph ι → Except Abort (World ι σ × PgGraph ι)
  | [], world, graph => .ok (world, graph)
  | queue :: rest, world, graph =>
    match destroyBrick ops world queue with
    | .error failure => .error failure
    | .ok after => destroyQueues ops rest after (graphPop world.polls graph queue)

/-- `pg_graph_merge`, bounded by the rounds of its exploration. -/
def pgGraphMerge (ops : BrickOps ι σ) (first : List ι → Option ι) (rounds : Nat) (world : World ι σ)
    (graphWest graphEast : PgGraph ι) : Except Abort (Option (MergeResult ι σ)) :=
  match mergeFriends ops (getAllQueues world graphEast)
      (getAllQueues world graphWest) world ([], [])
  with
  | .error failure => .error failure
  | .ok (some failure, world, _) => .ok (some ⟨world, graphWest, some failure⟩)
  | .ok (none, world, merged) =>
    match destroyQueues ops merged.1 world graphWest with
    | .error failure => .error failure
    | .ok (world, graphWest) =>
      match destroyQueues ops merged.2 world graphEast with
      | .error failure => .error failure
      | .ok (world, _) =>
        .ok ((pgGraphExplorePtr world.bricks world.polls first rounds graphWest none).map
          (fun explored => ⟨world, explored.2, explored.1⟩))

end Merge

section Spec

/-- A graph that was explored from one of its bricks. -/
def Explored (world : World ι σ) (graph : PgGraph ι) : Prop :=
  ∃ origin, DistinctNames world.bricks origin ∧ HoldsComponent world.bricks world.polls origin graph

/-- An address where no brick of the program is. -/
structure Unused (world : World ι σ) (graph : PgGraph ι) (address : ι) : Prop where
  unlinked : ∀ side index, (world.bricks address).linkAt side index = none
  outside : address ∉ graph.all
  friendless : ∀ brick, world.friend brick ≠ some address

variable [DecidableEq ι]

/-- The number of links that have one brick on the west and one on the east. -/
def eastLinks (bricks : ι → Brick ι) (west east : ι) : Nat :=
  ((Finset.range (max 1 (bricks west).east.max)).filter (fun index =>
      ((bricks west).linkAt .east index).map Prod.fst = some east)).card

end Spec

end PacketGraph
