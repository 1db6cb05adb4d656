import Mathlib

namespace PacketGraph

/-!
# Bricks, sides and edges

This module embeds `struct pg_brick` and its construction.  Bricks are named
by an arbitrary type `ι` standing for their addresses, so that an edge holds
the identity of the brick it links to.

Two unions of the source are resolved by the brick type.  A side's `edges` is
the array of a multipole and the one-element list holding `edge` for the other
types.  A monopole's `side` is the storage of `sides[PG_WEST_SIDE]`.
-/

/-- `enum pg_side`, without the `PG_MAX_SIDE` bound. -/
inductive Side where
  | west
  | east
  deriving Repr, DecidableEq

/-- The side seen from the other end of a link. -/
def pgFlipSide : Side → Side
  | .west => .east
  | .east => .west

@[simp] theorem pgFlipSide_pgFlipSide (side : Side) : pgFlipSide (pgFlipSide side) = side := by
  cases side <;> rfl

@[simp] theorem pgFlipSide_ne (side : Side) : pgFlipSide side ≠ side := by
  cases side <;> simp [pgFlipSide]

/-- The text of a side in error messages. -/
def pgSideToString : Side → String
  | .west => "PG_WEST_SIDE"
  | .east => "PG_EAST_SIDE"

/-- `enum pg_brick_type`. -/
inductive BrickType where
  | multipole
  | monopole
  | dipole
  deriving Repr, DecidableEq

/-- The text of a brick type in error messages. -/
def pgBrickTypeToString : BrickType → String
  | .multipole => "PG_MULTIPOLE"
  | .monopole => "PG_MONOPOLE"
  | .dipole => "PG_DIPOLE"

/-- The error number and the message of a `struct pg_error`. -/
structure PgError where
  errNo : Nat
  message : String
  deriving Repr, DecidableEq

/-- An error without an error number. -/
def pgErrorNew (message : String) : PgError where
  errNo := 0
  message := message

/-- An error carrying an error number. -/
def pgErrorNewErrno (errNo : Nat) (message : String) : PgError where
  errNo := errNo
  message := message

/-- How a call can end the program instead of returning. -/
inductive Abort where
  | panic (message : String)
  | assertion
  | fault
  deriving Repr, DecidableEq

/-- One end of a link: the paired brick and the index of the paired edge. -/
structure Edge (ι : Type) where
  link : Option ι
  pairIndex : Nat
  deriving Repr, DecidableEq

/-- An edge that links nowhere. -/
def Edge.empty {ι : Type} : Edge ι where
  link := none
  pairIndex := 0

/-- The edges of one side, with their maximal and current number. -/
structure BrickSide (ι : Type) where
  max : Nat
  nb : Nat
  edges : List (Edge ι)
  deriving Repr, DecidableEq

/--
The part of a brick that linking reads and writes.

`output` is the private field that every monopole brick sets in `link_notify`
and reads in `get_side`.  `released` counts how often the brick was destroyed
and freed.
-/
structure Brick (ι : Type) where
  type : BrickType
  name : String
  refcount : Int
  released : Nat
  output : Side
  west : BrickSide ι
  east : BrickSide ι
  deriving Repr, DecidableEq

namespace Brick

variable {ι : Type}

/-- `brick->sides[side]`. -/
def sides (brick : Brick ι) : Side → BrickSide ι
  | .west => brick.west
  | .east => brick.east

/-- `brick->side`, the storage a monopole shares with its west side. -/
def side (brick : Brick ι) : BrickSide ι :=
  brick.west

/-- Overwrite one side. -/
def setSide (brick : Brick ι) (side : Side) (value : BrickSide ι) : Brick ι :=
  match side with
  | .west => { brick with west := value }
  | .east => { brick with east := value }

variable (brick : Brick ι) (side : Side) (value : BrickSide ι)

@[simp] theorem sides_setSide_same : (brick.setSide side value).sides side = value := by
  cases side <;> rfl

theorem sides_setSide (side other : Side) (value : BrickSide ι) :
    (brick.setSide side value).sides other = if other = side then value else brick.sides other := by
  cases side <;> cases other <;> rfl

@[simp] theorem type_setSide : (brick.setSide side value).type = brick.type := by
  cases side <;> rfl

@[simp] theorem refcount_setSide : (brick.setSide side value).refcount = brick.refcount := by
  cases side <;> rfl

@[simp] theorem output_setSide : (brick.setSide side value).output = brick.output := by
  cases side <;> rfl

end Brick

/-- The part of `struct pg_brick_config` that the link layer reads. -/
structure BrickConfig where
  name : String
  westMax : Nat
  eastMax : Nat
  type : BrickType
  deriving Repr, DecidableEq

/-- Greatest value of a `uint16_t`. -/
def uint16Max : Nat :=
  65535

/-- Reject configurations whose sides have too many edges. -/
def checkSideMax (config : BrickConfig) : Except PgError Unit :=
  if config.type = .multipole ∧ (uint16Max ≤ config.westMax ∨ uint16Max ≤ config.eastMax) then
    .error (pgErrorNew ("A '" ++ pgBrickTypeToString config.type ++
        "' cannot have more than 65535 edge on " ++ pgSideToString
          (if uint16Max ≤ config.westMax then .west else .east)))
  else if config.type ≠ .multipole ∧ (1 < config.westMax ∨ 1 < config.eastMax) then
    .error (pgErrorNew ("A '" ++ pgBrickTypeToString config.type ++
        "' cannot have more than one neibour per side"))
  else
    .ok ()

/-- The edges of a fresh side. -/
def freshEdges (ι : Type) (type : BrickType) (max : Nat) : List (Edge ι) :=
  match type with
  | .multipole => List.replicate max .empty
  | _ => [.empty]

/-- Allocate the edge arrays; a multipole needs at least one nonempty side. -/
def allocEdges {ι : Type} (brick : Brick ι) : Except PgError (Brick ι) :=
  if brick.type = .multipole ∧ brick.west.max = 0 ∧ brick.east.max = 0 then
    .error (pgErrorNew ("Brick'" ++ brick.name ++ "',two sides empties"))
  else
    .ok { brick with
      west := { brick.west with edges := freshEdges ι brick.type brick.west.max }
      east := { brick.east with edges := freshEdges ι brick.type brick.east.max } }

/-- A registered `struct pg_brick_ops`, as far as construction uses it. -/
structure OpsEntry (ι σ : Type) where
  name : String
  stateSize : Int
  init : Brick ι → BrickConfig → Except (Option PgError) σ

/-- The zeroed brick with its reference count, type, name and bounds set. -/
def blankBrick (ι : Type) (config : BrickConfig) : Brick ι where
  type := config.type
  name := config.name
  refcount := 1
  released := 0
  output := .west
  west := { max := config.westMax % 65536, nb := 0, edges := [] }
  east := { max := config.eastMax % 65536, nb := 0, edges := [] }

/--
Instantiate a brick by its `brick_ops` name.

`registry` is the list of registered operations and `init` returns the private
state of the new brick, or fails with or without setting an error.
-/
def pgBrickNew {ι σ : Type} (registry : List (OpsEntry ι σ)) (name : Option String)
    (config : Option BrickConfig) : Except PgError (Brick ι × σ) :=
  match config, name with
  | none, _ => .error (pgErrorNew "Brick config not set")
  | some _, none => .error (pgErrorNew "Brick name not set")
  | some config, some name =>
    match registry.find? (fun entry => entry.name = name) with
    | none => .error (pgErrorNew ("Brick '" ++ name ++ "' not found"))
    | some entry =>
      if entry.stateSize ≤ 0 then
        .error (pgErrorNew "Brick state size is not positive")
      else
        match checkSideMax config with
        | .error failure => .error failure
        | .ok () =>
          match entry.init (blankBrick ι config) config with
          | .error (some failure) => .error failure
          | .error none => .error (pgErrorNew ("Failed to init '" ++ name ++ "' brick"))
          | .ok priv => (allocEdges (blankBrick ι config)).map (fun brick => (brick, priv))

end PacketGraph
