import Mathlib

namespace PacketGraph

open Function

/-!
# The worker of a thread

`pg_thread_main` keeps the graphs of a thread, the state of each of them and
the state of the whole.  It executes the operations that it finds in a queue
and polls the graphs that run.

The arguments of an operation are unions of eight bytes.  Graphs and errors
are known by their addresses.
-/

/-- `PG_STACK_BLOCK_SIZE`. -/
def pgStackBlockSize : Nat :=
  126

/-- A stack of `stack.h`, the last value pushed first. -/
structure Stack (α : Type) where
  values : List α
  limit : Nat

namespace Stack

variable {α : Type}

/-- `STACK_CREATE` and `stack_set_limit`; zero is no limit. -/
def create (limit : Nat) : Stack α where
  values := []
  limit := limit

/-- `stack_push`. -/
def push (stack : Stack α) (value : α) : Stack α :=
  if stack.limit ≠ 0 ∧ stack.limit ≤ stack.values.length + 1 then
    stack
  else
    { stack with values := value :: stack.values }

/-- The value that `stack_pop` returns. -/
def top (stack : Stack α) (failRet : α) : α :=
  stack.values.headD failRet

/-- The stack that `stack_pop` leaves. -/
def rest (stack : Stack α) : Stack α :=
  { stack with values := stack.values.tail }

end Stack

/-- `enum pg_thread_state`. -/
inductive PgThreadState where
  | stopped
  | broken
  | running
  deriving Repr, DecidableEq

/-- The value of a state in an answer. -/
def PgThreadState.toBits : PgThreadState → BitVec 64
  | .stopped => 0#64
  | .broken => 1#64
  | .running => 2#64

/-- `enum pg_thread_op`. -/
inductive PgThreadOp where
  | none
  | answer
  | state
  | addGraph
  | rmGraph
  | run
  | popError
  | forceStart
  | stop
  | quit
  deriving Repr, DecidableEq

/-- `struct thread_op`. -/
structure ThreadOp where
  op : PgThreadOp
  arg : BitVec 64
  arg2 : BitVec 64
  deriving Repr, DecidableEq

/-- Write the `i32` member of a union, which leaves its upper half. -/
def setI32 (arg : BitVec 64) (value : BitVec 32) : BitVec 64 :=
  arg.extractLsb' 32 32 ++ value

@[simp] theorem setWidth_setI32 (arg : BitVec 64) (value : BitVec 32) :
    (setI32 arg value).setWidth 32 = value := by
  unfold setI32
  rw [BitVec.setWidth_append]
  simp

/-- What `pg_thread_main` keeps in its frame. -/
structure Worker where
  state : PgThreadState
  graphs : Nat → BitVec 64
  started : Nat → PgThreadState
  lastGraph : Nat
  freeGraph : Stack (BitVec 8)
  errors : Stack (BitVec 64)
  errorsGid : Stack (BitVec 16)

/-- The worker before its first iteration; both arrays are uninitialised. -/
def Worker.start (graphs : Nat → BitVec 64) (started : Nat → PgThreadState) : Worker where
  state := .stopped
  graphs := graphs
  started := started
  lastGraph := 0
  freeGraph := Stack.create 0
  errors := Stack.create 128
  errorsGid := Stack.create 128

/-- How the switch of `pg_thread_main` is left. -/
inductive Served where
  | broke (cur : ThreadOp) (worker : Worker)
  /-- `continue` without giving the lock back. -/
  | held (cur : ThreadOp) (worker : Worker)
  | quit
  /-- An access outside of the arrays. -/
  | fault

/-- The graph id of `PG_THREAD_RM_GRAPH`, read as `i16`. -/
def ThreadOp.rmId (cur : ThreadOp) : Int :=
  (cur.arg.setWidth 16).toInt

/-- The graph id of `PG_THREAD_FORCE_START`, read as `i32`. -/
def ThreadOp.startId (cur : ThreadOp) : Int :=
  (cur.arg.setWidth 32).toInt

/-- Is a number an index of the arrays of graphs? -/
def IsGraphIndex (id : Int) : Prop :=
  0 ≤ id ∧ id < pgStackBlockSize

instance (id : Int) : Decidable (IsGraphIndex id) := by
  unfold IsGraphIndex
  infer_instance

section Operations

variable (worker : Worker) (cur : ThreadOp)

/-- The case `PG_THREAD_POP_ERROR`. -/
def servePopError : Served :=
  .broke
    { op := .answer
      arg := worker.errors.top 0#64
      arg2 :=
        BitVec.ofNat 32 worker.errorsGid.rest.values.length ++
          (worker.errorsGid.top (-1)).signExtend 32 }
    { worker with errors := worker.errors.rest, errorsGid := worker.errorsGid.rest }

/-- The case `PG_THREAD_RM_GRAPH`. -/
def serveRmGraph : Served :=
  if IsGraphIndex cur.rmId then
    .broke { cur with op := .answer, arg := worker.graphs cur.rmId.toNat } { worker with
        freeGraph := worker.freeGraph.push (BitVec.ofInt 8 cur.rmId)
        started := update worker.started cur.rmId.toNat .stopped }
  else
    .fault

/-- A graph is put into a slot of the arrays. -/
def placeGraph (worker : Worker) (cur : ThreadOp) (slot : Nat) : Served :=
  .broke { cur with op := .answer, arg := setI32 cur.arg (BitVec.ofNat 32 slot) } { worker with
      graphs := update worker.graphs slot cur.arg
      started := update worker.started slot .running }

/-- The case `PG_THREAD_ADD_GRAPH`. -/
def serveAddGraph : Served :=
  let id := (worker.freeGraph.top (-1)).toInt
  let popped := { worker with freeGraph := worker.freeGraph.rest }
  if id = -1 then
    if worker.lastGraph = pgStackBlockSize then
      .held { cur with op := .answer, arg := setI32 cur.arg (-1) } popped
    else
      placeGraph { popped with lastGraph := worker.lastGraph + 1 } cur worker.lastGraph
  else if IsGraphIndex id then placeGraph popped cur id.toNat else .fault

/-- Is a graph broken? -/
def Worker.anyBroken : Bool :=
  (List.range worker.lastGraph).any (fun i => worker.started i = .broken)

/-- The case `PG_THREAD_FORCE_START`. -/
def serveForceStart : Served :=
  if IsGraphIndex cur.startId then
    let restarted := { worker with started := update worker.started cur.startId.toNat .running }
    .broke { cur with op := .none } { restarted with
        state :=
          if ¬ restarted.anyBroken ∧ worker.errors.values.length = 0 then
            .running
          else
            worker.state }
  else
    .fault

/-- The case `PG_THREAD_RUN`, which is left pending without a graph. -/
def serveRun : Served :=
  if worker.lastGraph = 0 then
    .broke cur worker
  else
    .broke { cur with op := .none } { worker with
        started := fun i => if i < worker.lastGraph ∧ worker.started i = .broken then
            .running
          else
            worker.started i
        state := .running }

/-- The switch of `pg_thread_main`. -/
def switchOp : Served :=
  match cur.op with
  | .quit => .quit
  | .popError => servePopError worker
  | .rmGraph => serveRmGraph worker cur
  | .addGraph => serveAddGraph worker cur
  | .forceStart => serveForceStart worker cur
  | .run => serveRun worker cur
  | .stop => .broke { cur with op := .answer } { worker with state := .stopped }
  | .state => .broke { cur with op := .answer, arg := worker.state.toBits } worker
  | .none => .broke cur worker
  | .answer => .broke cur worker

end Operations

section Polling

/-- One call of `pg_graph_poll`. -/
structure PollEvent where
  index : Nat
  graph : BitVec 64
  /-- The state of the thread before the call. -/
  state : PgThreadState
  failed : Bool

/-- The turn of one graph; the outcome of its poll is none or an error. -/
def pollTurn (outcome : Option (BitVec 64)) (i : Nat) (worker : Worker) : Worker × List PollEvent :=
  if worker.started i ≠ .running then
    (worker, [])
  else
    match outcome with
    | none => (worker, [⟨i, worker.graphs i, worker.state, false⟩])
    | some error =>
      ({ worker with
          state := .broken
          started := update worker.started i .broken
          errors := worker.errors.push error
          errorsGid := worker.errorsGid.push (BitVec.ofNat 16 i) },
        [⟨i, worker.graphs i, worker.state, true⟩])

/-- The first turns of a round. -/
def pollTurns (outcomes : Nat → Option (BitVec 64)) (worker : Worker) :
    Nat → Worker × List PollEvent
  | 0 => (worker, [])
  | i + 1 =>
    let before := pollTurns outcomes worker i
    let turn := pollTurn (outcomes i) i before.1
    (turn.1, before.2 ++ turn.2)

/-- One round over the graphs. -/
def pollRound (outcomes : Nat → Option (BitVec 64)) (worker : Worker) : Worker × List PollEvent :=
  pollTurns outcomes worker worker.lastGraph

/-- The first rounds of the poll loop. -/
def pollRounds (outcomes : Nat → Nat → Option (BitVec 64)) (worker : Worker) :
    Nat → Worker × List PollEvent
  | 0 => (worker, [])
  | j + 1 =>
    let before := pollRounds outcomes worker j
    let round := pollRound (outcomes j) before.1
    (round.1, before.2 ++ round.2)

/-- The number of rounds between two looks at the queue. -/
@[irreducible] def pollLoops : Nat :=
  32

end Polling

end PacketGraph
