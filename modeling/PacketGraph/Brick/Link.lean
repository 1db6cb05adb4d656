import PacketGraph.Brick.Basic

namespace PacketGraph

/-!
# Linking and unlinking bricks

The link layer of `brick.c` over a whole graph: `pg_brick_link`,
`pg_brick_chained_links`, `pg_brick_unlink` and `pg_brick_unlink_edge`, with
the edge iterator they use.

A graph maps every brick identity to its `struct pg_brick` and to a private
state of an arbitrary type `σ`.  Linking never looks at private states; the
`unlink_notify` callbacks of the two ends may change them and may set an error.
The only `link_notify` and `get_side` callbacks of the repository are those of
the monopole bricks, which all do the same.
-/

/-- All bricks of a program with their private states. -/
structure Graph (ι σ : Type) where
  brick : ι → Brick ι
  priv : ι → σ

/-- The `unlink_notify` callbacks; a brick without one changes nothing. -/
structure BrickOps (ι σ : Type) where
  unlinkNotify : Brick ι → σ → Side → Nat → σ × Option PgError

/-- How a call ends: aborted, or returning an optional error and a graph. -/
abbrev CallResult (ι σ : Type) :=
  Except Abort (Option PgError × Graph ι σ)

variable {ι σ : Type}

/-- The address of one edge, or none when there is no such edge. -/
def pgBrickGetEdge (brick : Brick ι) (side : Side) (edge : Nat) : Option (Edge ι) :=
  match brick.type with
  | .multipole => (brick.sides side).edges[edge]?
  | .dipole => (brick.sides side).edges[0]?
  | .monopole => brick.side.edges[0]?

/-- Write through the address that `pgBrickGetEdge` returns. -/
def modifyEdge (brick : Brick ι) (side : Side) (edge : Nat) (change : Edge ι → Edge ι) : Brick ι :=
  match brick.type with
  | .multipole =>
    brick.setSide side { brick.sides side with
        edges := (brick.sides side).edges.modify edge change }
  | .dipole =>
    brick.setSide side { brick.sides side with edges := (brick.sides side).edges.modify 0 change }
  | .monopole =>
    brick.setSide .west { brick.side with edges := brick.side.edges.modify 0 change }

/-- The side of a brick, which is the shared one for a monopole. -/
def getSide (brick : Brick ι) (side : Side) : BrickSide ι :=
  match brick.type with
  | .monopole => brick.side
  | _ => brick.sides side

/-- Change the `uint16_t nb` of the side that `getSide` returns. -/
def modifyNb (brick : Brick ι) (side : Side) (change : Nat → Nat) : Brick ι :=
  match brick.type with
  | .monopole =>
    brick.setSide .west { brick.side with nb := change brick.side.nb % 65536 }
  | _ =>
    brick.setSide side { brick.sides side with nb := change (brick.sides side).nb % 65536 }

/-- Is there a free edge on this side? -/
def isPlaceAvailable (brick : Brick ι) (side : Side) : Bool :=
  match brick.type with
  | .monopole => decide (brick.side.nb < brick.side.max)
  | _ => decide ((brick.sides side).nb < (brick.sides side).max)

/-- The common `link_notify` of the monopole bricks. -/
def linkNotify (brick : Brick ι) (side : Side) : Brick ι :=
  match brick.type with
  | .monopole => { brick with output := pgFlipSide side }
  | _ => brick

/-- The common `get_side` of the monopole bricks. -/
def opsGetSide (brick : Brick ι) : Side :=
  pgFlipSide brick.output

section Graph

variable [DecidableEq ι]

/-- The number of links of one side to a brick. -/
def countSide (side : BrickSide ι) (target : ι) : Nat :=
  side.edges.countP (fun edge => edge.link = some target)

/-- The total number of links from a brick to a target. -/
def pgBrickLinksCountGet (brick : Brick ι) (target : ι) : Nat :=
  match brick.type with
  | .monopole => countSide brick.side target
  | _ => countSide brick.west target + countSide brick.east target

/-- Change the brick behind one identity. -/
def Graph.modify (graph : Graph ι σ) (target : ι) (change : Brick ι → Brick ι) : Graph ι σ :=
  { graph with brick := Function.update graph.brick target (change (graph.brick target)) }

/-- Take a reference on a brick. -/
def pgBrickIncref (graph : Graph ι σ) (target : ι) : Graph ι σ :=
  graph.modify target (fun brick => { brick with refcount := brick.refcount + 1 })

/-- Drop a reference on a brick, destroying it with the last one. -/
def pgBrickDecref (graph : Graph ι σ) (target : ι) : Graph ι σ :=
  graph.modify target (fun brick => if 0 < brick.refcount - 1 then
        { brick with refcount := brick.refcount - 1 }
      else
        { brick with refcount := brick.refcount - 1, released := brick.released + 1 })

/-- Store the address of `target` in one edge of `brick`. -/
def storeLink (brick : Brick ι) (side : Side) (index : Nat) (target : ι) : Brick ι :=
  modifyNb (modifyEdge brick side index (fun edge => { edge with link := some target }))
    side (· + 1)

/-- Link `origin` to `target` on a side, returning the index of the edge. -/
def insertLink (graph : Graph ι σ) (origin target : ι) (side : Side) :
    Except Abort (Nat × Graph ι σ) :=
  match (graph.brick origin).type with
  | .multipole =>
    let own := (graph.brick origin).sides side
    if own.edges = [] then
      .error .assertion
    else
      match (own.edges.take own.max).findIdx? (fun edge => edge.link.isNone)
      with
      | none => .error (.panic "can't find pair")
      | some index =>
        .ok (index, pgBrickIncref (graph.modify origin
              (fun brick => storeLink brick side index target)) target)
  | _ =>
    .ok (0, pgBrickIncref (graph.modify origin (fun brick => storeLink brick side 0 target)) target)

/-- Record the index of the paired edge. -/
def setEdge (graph : Graph ι σ) (target : ι) (side : Side) (edge index : Nat) :
    Option (Graph ι σ) :=
  match pgBrickGetEdge (graph.brick target) side edge with
  | none => none
  | some _ =>
    some (graph.modify target (fun brick =>
        modifyEdge brick side edge (fun own => { own with pairIndex := index })))

/-- Link two bricks; `none` stands for a NULL argument. -/
def pgBrickLink (graph : Graph ι σ) (west east : Option ι) : CallResult ι σ :=
  match east, west with
  | some east, some west =>
    if west = east then
      .ok (some (pgErrorNew "Can not link a brick to itself"), graph)
    else if ¬ isPlaceAvailable (graph.brick east) .west then
      .ok (some (pgErrorNew ((graph.brick east).name ++ ":WEST side full")), graph)
    else if ¬ isPlaceAvailable (graph.brick west) .east then
      .ok (some (pgErrorNew ((graph.brick west).name ++ ":EAST side full")), graph)
    else
      match insertLink graph east west .west with
      | .error failure => .error failure
      | .ok (eastIndex, graph) =>
        let graph := graph.modify east (fun brick => linkNotify brick .west)
        match insertLink graph west east .east with
        | .error failure => .error failure
        | .ok (westIndex, graph) =>
          let graph := graph.modify west (fun brick => linkNotify brick .east)
          match setEdge graph east .west eastIndex westIndex with
          | none => .ok (some (pgErrorNew "Can't set edge"), graph)
          | some graph =>
            match setEdge graph west .east westIndex eastIndex with
            | none => .ok (some (pgErrorNew "Can't set edge"), graph)
            | some graph => .ok (none, graph)
  | _, _ => .ok (some (pgErrorNew "Node is not valid"), graph)

/-- Link each brick of the list to the one before it, until a call fails. -/
def chainLinks (graph : Graph ι σ) (west : Option ι) :
    List ι → CallResult ι σ
  | [] => .ok (none, graph)
  | east :: rest =>
    match pgBrickLink graph west (some east) with
    | .error failure => .error failure
    | .ok (some failure, graph) => .ok (some failure, graph)
    | .ok (none, graph) => chainLinks graph (some east) rest

/-- `pg_brick_chained_links`; the list ends at the NULL argument. -/
def pgBrickChainedLinks (graph : Graph ι σ) (west : Option ι) (easts : List ι) : CallResult ι σ :=
  match easts with
  | [] => .ok (some (pgErrorNew "brick east not found"), graph)
  | _ :: _ => chainLinks graph west easts

/-- Notify the brick behind an edge that the link breaks. -/
def unlinkNotify (ops : BrickOps ι σ) (graph : Graph ι σ) (edge : Edge ι) (arraySide : Side) :
    Graph ι σ × Option PgError :=
  match edge.link with
  | none => (graph, none)
  | some notified =>
    let answer :=
      ops.unlinkNotify (graph.brick notified) (graph.priv notified)
        (pgFlipSide arraySide) edge.pairIndex
    ({ graph with priv := Function.update graph.priv notified answer.1 },
      answer.2)

/-- Clear both ends of a link and the counters that go with them. -/
def resetLink (graph : Graph ι σ) (target : ι) (side : Side) (index : Nat) (paired : ι)
    (pairIndex : Nat) : Graph ι σ :=
  let graph := pgBrickDecref (pgBrickDecref graph target) paired
  let graph :=
    graph.modify paired (fun brick =>
        modifyEdge brick (pgFlipSide side) pairIndex (fun _ => .empty))
  let graph := graph.modify target (fun brick => modifyEdge brick side index (fun _ => .empty))
  let graph := graph.modify target (fun brick => modifyNb brick side (· + 65535))
  graph.modify paired (fun brick => modifyNb brick (pgFlipSide side) (· + 65535))

/-- Break the link of one edge, unless a notified brick sets an error. -/
def doUnlink (ops : BrickOps ι σ) (graph : Graph ι σ) (target : ι) (side : Side) (index : Nat) :
    CallResult ι σ :=
  let brick := graph.brick target
  match pgBrickGetEdge brick side index with
  | none => .error .fault
  | some edge =>
    let side := if brick.type = .monopole then opsGetSide brick else side
    match edge.link with
    | none => .ok (none, graph)
    | some paired =>
      match pgBrickGetEdge (graph.brick paired) (pgFlipSide side) edge.pairIndex
      with
      | none => .ok (none, graph)
      | some pairEdge =>
        match unlinkNotify ops graph edge side with
        | (graph, some failure) => .ok (some failure, graph)
        | (graph, none) =>
          match unlinkNotify ops graph pairEdge (pgFlipSide side) with
          | (graph, some failure) => .ok (some failure, graph)
          | (graph, none) => .ok (none, resetLink graph target side index paired edge.pairIndex)

/-- Position of the edge iterator; no side stands for `PG_MAX_SIDE`. -/
structure EdgeIterator where
  side : Option Side
  edge : Nat
  finished : Bool
  deriving Repr, DecidableEq

/-- `side += 1` on `enum pg_side`. -/
def nextSide : Option Side → Option Side
  | some .west => some .east
  | _ => none

/-- Does the iterator stand on an edge with a link? -/
def EdgeIterator.onLink (it : EdgeIterator) (brick : Brick ι) : Bool :=
  match it.side with
  | none => false
  | some side =>
    match pgBrickGetEdge brick side it.edge with
    | none => false
    | some edge => edge.link.isSome

/-- `pg_side_get_max` on the side the iterator stands on. -/
def EdgeIterator.sideMax (it : EdgeIterator) (brick : Brick ι) : Nat :=
  match it.side with
  | none => 0
  | some side => (brick.sides side).max

/-- Move to the next position without looking at its edge. -/
def EdgeIterator.bump (it : EdgeIterator) (brick : Brick ι) : EdgeIterator :=
  if it.edge + 1 < it.sideMax brick then
    { it with edge := it.edge + 1 }
  else
    { it with side := nextSide it.side, edge := 0 }

/-- How many positions are still ahead of the iterator. -/
def EdgeIterator.ahead (it : EdgeIterator) (brick : Brick ι) : Nat :=
  match it.side with
  | some .west => (brick.west.max - it.edge) + brick.east.max + 2
  | some .east => (brick.east.max - it.edge) + 1
  | none => 0

/-- The recursion of `pg_brick_edge_iterator_next`, bounded by its rounds. -/
def edgeIteratorNextUpTo (brick : Brick ι) : Nat → EdgeIterator → EdgeIterator
  | 0, it => { it with finished := true }
  | rounds + 1, it =>
    if it.finished then
      it
    else if brick.type = .monopole then
      { it with finished := true }
    else
      let it := it.bump brick
      if it.side = none then
        { it with finished := true }
      else if it.onLink brick then it else edgeIteratorNextUpTo brick rounds it

/-- Advance to the next edge with a link, or to the end. -/
def pgBrickEdgeIteratorNext (brick : Brick ι) (it : EdgeIterator) : EdgeIterator :=
  edgeIteratorNextUpTo brick (it.ahead brick + 1) it

/-- Start on the first edge with a link, or at the end. -/
def pgBrickEdgeIteratorInit (brick : Brick ι) : EdgeIterator :=
  let start : EdgeIterator := { side := some .west, edge := 0, finished := false }
  if start.onLink brick then start else pgBrickEdgeIteratorNext brick start

/-- The loop of `pg_brick_generic_unlink`, bounded by its rounds. -/
def genericUnlinkFrom (ops : BrickOps ι σ) (target : ι) :
    Nat → Graph ι σ → EdgeIterator → CallResult ι σ
  | 0, graph, _ => .ok (none, graph)
  | rounds + 1, graph, it =>
    match it.finished, it.side with
    | false, some side =>
      match doUnlink ops graph target side it.edge with
      | .error failure => .error failure
      | .ok (some failure, graph) => .ok (some failure, graph)
      | .ok (none, graph) =>
        genericUnlinkFrom ops target rounds graph (pgBrickEdgeIteratorNext (graph.brick target) it)
    | _, _ => .ok (none, graph)

/-- Unlink all edges of a brick. -/
def pgBrickGenericUnlink (ops : BrickOps ι σ) (graph : Graph ι σ) (target : ι) : CallResult ι σ :=
  let start := pgBrickEdgeIteratorInit (graph.brick target)
  genericUnlinkFrom ops target (start.ahead (graph.brick target) + 1) graph start

/-- `pg_brick_unlink`; every brick of the repository unlinks generically. -/
def pgBrickUnlink (ops : BrickOps ι σ) (graph : Graph ι σ) (target : Option ι) : CallResult ι σ :=
  match target with
  | none => .ok (some (pgErrorNew "Node is not valid"), graph)
  | some target => pgBrickGenericUnlink ops graph target

/-- Search the first of the given indices whose east edge links to a brick. -/
def findEastEdge (west : Brick ι) (east : ι) :
    List Nat → Except PgError (Option Nat)
  | [] => .ok none
  | index :: rest =>
    match pgBrickGetEdge west .east index with
    | none => .error (pgErrorNew "can't get edge")
    | some edge =>
      if edge.link = some east then .ok (some index) else findEastEdge west east rest

/-- Unlink one edge between a west and an east brick. -/
def pgBrickUnlinkEdge (ops : BrickOps ι σ) (graph : Graph ι σ) (west east : Option ι) :
    CallResult ι σ :=
  match west, east with
  | none, _ => .ok (some (pgErrorNew "West brick is not valid"), graph)
  | some _, none => .ok (some (pgErrorNew "East brick is not valid"), graph)
  | some west, some east =>
    match findEastEdge (graph.brick west) east (List.range (getSide (graph.brick west) .east).max)
    with
    | .error failure => .ok (some failure, graph)
    | .ok none =>
      .ok (some (pgErrorNew ((graph.brick west).name ++ " does not seem to be linked with " ++
          (graph.brick east).name)), graph)
    | .ok (some index) => doUnlink ops graph west .east index

/-- One call of the public linking interface. -/
inductive LinkCall (ι : Type) where
  | link (west east : Option ι)
  | chainedLinks (west : Option ι) (easts : List ι)
  | unlinkEdge (west east : Option ι)
  | unlink (target : Option ι)
  deriving Repr, DecidableEq

/-- Execute one call of the linking interface. -/
def LinkCall.exec (ops : BrickOps ι σ) (graph : Graph ι σ) :
    LinkCall ι → CallResult ι σ
  | .link west east => pgBrickLink graph west east
  | .chainedLinks west easts => pgBrickChainedLinks graph west easts
  | .unlinkEdge west east => pgBrickUnlinkEdge ops graph west east
  | .unlink target => pgBrickUnlink ops graph target

end Graph

end PacketGraph
