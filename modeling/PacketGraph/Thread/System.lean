import PacketGraph.Lib.Reachability
import PacketGraph.Thread.Worker

namespace PacketGraph

open Function TransitionSystem

/-!
# Callers and the worker of a thread

Any number of callers put operations into the queue of a thread and wait for
answers in the slots they were given.  The worker walks the queue from its end
down while it holds the lock.  What happens under the lock is a step of its
own: the other parties cannot get at the queue in between.

The callers' operations are numbered in the order they enter the queue.  The
numbers, the operations executed, the polls and the values returned are kept
as a history, which no step of the program reads.
-/

variable {κ : Type}

/-- `PG_THREAD_MAX_OP`. -/
def pgThreadMaxOp : Nat :=
  128

/-- `struct pg_thread_client` without its lock. -/
structure PgThreadClient where
  queueSize : Nat
  queue : Nat → ThreadOp

/-- The functions that a caller may call on a thread. -/
inductive ThreadCall where
  | state
  | run
  | stop
  | addGraph (graph : BitVec 64)
  | popError
  | forceStartGraph (graphId : BitVec 32)
  | popGraph (graphId : BitVec 32)
  deriving Repr, DecidableEq

/-- The operation that a function enqueues. -/
def ThreadCall.op : ThreadCall → PgThreadOp
  | .state => .state
  | .run => .run
  | .stop => .stop
  | .addGraph _ => .addGraph
  | .popError => .popError
  | .forceStartGraph _ => .forceStart
  | .popGraph _ => .rmGraph

/-- The argument that `enqueue` leaves in a slot with an older argument. -/
def ThreadCall.arg (old : BitVec 64) : ThreadCall → BitVec 64
  | .addGraph graph => graph
  | .forceStartGraph graphId => setI32 old graphId
  | .popGraph graphId => setI32 old graphId
  | _ => 0#64

/-- Does a function wait for an answer? -/
def ThreadCall.waits : ThreadCall → Bool
  | .run => false
  | .forceStartGraph _ => false
  | _ => true

/-- What a function returns. -/
inductive ThreadReturn where
  | state (bits : BitVec 64)
  | code (value : Int)
  | error (errp : BitVec 64) (graphId : Int) (left : Int)
  | graph (address : BitVec 64)
  deriving Repr, DecidableEq

/-- What a function returns for the answer in its slot. -/
def ThreadCall.result (answer : ThreadOp) : ThreadCall → ThreadReturn
  | .state => .state answer.arg
  | .addGraph _ => .code (answer.arg.setWidth 32).toInt
  | .popError =>
    let graphId := (answer.arg2.setWidth 32).toInt
    .error answer.arg graphId (if graphId < 0 then -1 else (answer.arg2.extractLsb' 32 32).toInt)
  | .popGraph _ => .graph answer.arg
  | .run => .code 0
  | .stop => .code 0
  | .forceStartGraph _ => .code 0

section Queue

/-- `enqueue`; nothing is returned if the queue is full. -/
def enqueue (client : PgThreadClient) (call : ThreadCall) : Option (Nat × PgThreadClient) :=
  if client.queueSize + 1 = pgThreadMaxOp then
    none
  else
    let old := client.queue client.queueSize
    some (client.queueSize,
        { queueSize := client.queueSize + 1
          queue :=
            update client.queue client.queueSize
              { old with op := call.op, arg := call.arg old.arg } })

/-- The size of a queue without the empty slots at its end. -/
def shrunkSize (queue : Nat → ThreadOp) : Nat → Nat
  | 0 => 0
  | size + 1 => if (queue size).op = .none then shrunkSize queue size else size + 1

/-- `shrink_queue` by a caller that holds the lock. -/
def shrinkQueue (client : PgThreadClient) : PgThreadClient :=
  { client with queueSize := shrunkSize client.queue client.queueSize }

/-- Mark the slot of an answer as empty. -/
def PgThreadClient.clearSlot (client : PgThreadClient) (slot : Nat) : PgThreadClient :=
  { client with queue := update client.queue slot { client.queue slot with op := .none } }

/--
How a caller takes its answer out of the queue.  `pg_thread_stop` shrinks the
queue before it empties its slot.
-/
def takeAnswer (client : PgThreadClient) (call : ThreadCall) (slot : Nat) : PgThreadClient :=
  match call with
  | .stop => (shrinkQueue client).clearSlot slot
  | _ => shrinkQueue (client.clearSlot slot)

end Queue

/-- Where a caller is. -/
inductive CallerPhase where
  | idle
  /-- In `wait_enqueue`. -/
  | entering (call : ThreadCall)
  /-- In `wait_answer`. -/
  | waiting (call : ThreadCall) (slot ticket : Nat)
  /-- With the lock that `try_get_answer` took. -/
  | holding (call : ThreadCall) (slot ticket : Nat)

/-- Where the worker is. -/
inductive WorkerPhase where
  | top
  /-- At `again` with a value of `queue_pos`. -/
  | atOp (queuePos : Nat)
  /-- After the lock, before the poll loop. -/
  | polling
  | ended
  deriving DecidableEq

/-- Who holds the lock. -/
inductive LockHolder (κ : Type) where
  | worker
  | caller (who : κ)

/-- One entry of the history. -/
inductive ThreadEvent where
  /-- An operation took effect in the given state of the worker. -/
  | executed (ticket : Nat) (worker : Worker) (cur : ThreadOp)
  | polled (poll : PollEvent)

/-- A thread with its callers and its history. -/
structure ThreadWorld (κ : Type) where
  client : PgThreadClient
  lock : Option (LockHolder κ)
  worker : Worker
  control : WorkerPhase
  phase : κ → CallerPhase
  /-- The assertion of `try_get_answer` failed. -/
  asserted : Bool
  /-- The number of the operation that was put into a slot last. -/
  tickets : Nat → Nat
  issued : List (κ × ThreadCall)
  log : List ThreadEvent
  returned : List (κ × Nat × ThreadReturn)

/-- Is an operation still to be executed? -/
def ThreadOp.pending (cur : ThreadOp) : Bool :=
  cur.op ≠ .none ∧ cur.op ≠ .answer

/-- Does executing an operation take effect? -/
def Worker.executes (worker : Worker) (cur : ThreadOp) : Bool :=
  cur.pending ∧ ¬ (cur.op = .run ∧ worker.lastGraph = 0)

/-- One step of a caller or of the worker. -/
inductive ThreadLabel (κ : Type) where
  | begin (who : κ) (call : ThreadCall)
  | enqueue (who : κ)
  | tryGetAnswer (who : κ)
  | takeAnswer (who : κ)
  | tryLock
  /-- `try_lock` fails since somebody else is under the lock. -/
  | lockFails
  | switch
  | poll (outcomes : Nat → Nat → Option (BitVec 64))

namespace ThreadWorld

variable [DecidableEq κ] (world : ThreadWorld κ)

/-- A function is called; adding no graph returns at once. -/
def begin (who : κ) (call : ThreadCall) : Option (ThreadWorld κ) :=
  match world.phase who with
  | .idle =>
    if call = .addGraph 0#64 then
      some world
    else
      some { world with phase := update world.phase who (.entering call) }
  | _ => none

/-- One attempt to enqueue. -/
def enqueue (who : κ) : Option (ThreadWorld κ) :=
  match world.phase who, world.lock with
  | .entering call, none =>
    match PacketGraph.enqueue world.client call with
    | none => some world
    | some (slot, client) =>
      let ticket := world.issued.length
      some { world with
          client := client
          tickets := update world.tickets slot ticket
          issued := world.issued ++ [(who, call)]
          phase :=
            update world.phase who (if call.waits then .waiting call slot ticket else .idle) }
  | _, _ => none

/-- `try_get_answer` while nobody holds the lock. -/
def tryGetAnswer (who : κ) : Option (ThreadWorld κ) :=
  match world.phase who, world.lock with
  | .waiting call slot ticket, none =>
    if (world.client.queue slot).op = .answer then
      some { world with
          lock := some (.caller who)
          phase :=
            update world.phase who (.holding call slot ticket) }
    else if (world.client.queue slot).op = .none then
      some { world with asserted := true }
    else
      some world
  | _, _ => none

/-- The answer is taken, the lock given back, and the function returns. -/
def takeAnswer (who : κ) : Option (ThreadWorld κ) :=
  match world.phase who with
  | .holding call slot ticket =>
    some { world with
        client := PacketGraph.takeAnswer world.client call slot
        lock := none
        phase := update world.phase who .idle
        returned :=
          world.returned ++ [(who, ticket, call.result (world.client.queue slot))] }
  | _ => none

/-- The worker gets the lock and looks at the queue. -/
def tryLock : Option (ThreadWorld κ) :=
  match world.control, world.lock with
  | .top, none =>
    if world.client.queueSize = 0 then
      some world
    else
      some { world with lock := some .worker, control := .atOp (world.client.queueSize - 1) }
  | _, _ => none

/-- The worker goes on without the lock. -/
def lockFails : Option (ThreadWorld κ) :=
  match world.control with
  | .top => some { world with control := .polling }
  | _ => none

/-- The history after an operation was looked at. -/
def logged (queuePos : Nat) : List ThreadEvent :=
  if world.worker.executes (world.client.queue queuePos) then
    world.log ++ [.executed (world.tickets queuePos) world.worker (world.client.queue queuePos)]
  else
    world.log

/-- The world after an operation was looked at. -/
def served (queuePos : Nat) (cur : ThreadOp) (worker : Worker) : ThreadWorld κ :=
  { world with
    client :=
      { world.client with queue := update world.client.queue queuePos cur }
    worker := worker
    log := world.logged queuePos }

/-- The worker looks at one operation. -/
def switch : Option (ThreadWorld κ) :=
  match world.control with
  | .atOp queuePos =>
    match switchOp world.worker (world.client.queue queuePos) with
    | .broke cur worker =>
      if 1 < queuePos then
        some { world.served queuePos cur worker with control := .atOp (queuePos - 1) }
      else
        some { world.served queuePos cur worker with control := .polling, lock := none }
    | .held cur worker => some { world.served queuePos cur worker with control := .top }
    | .quit => some { world with control := .ended, lock := none }
    | .fault => none
  | _ => none

/-- The poll loop. -/
def poll (outcomes : Nat → Nat → Option (BitVec 64)) : Option (ThreadWorld κ) :=
  match world.control with
  | .polling =>
    if world.worker.state = .stopped then
      some { world with control := .top }
    else
      let polls := pollRounds outcomes world.worker pollLoops
      some { world with
          worker := polls.1
          control := .top
          log := world.log ++ polls.2.map .polled }
  | _ => none

/-- The step of a label. -/
def step : ThreadLabel κ → Option (ThreadWorld κ)
  | .begin who call => world.begin who call
  | .enqueue who => world.enqueue who
  | .tryGetAnswer who => world.tryGetAnswer who
  | .takeAnswer who => world.takeAnswer who
  | .tryLock => world.tryLock
  | .lockFails => world.lockFails
  | .switch => world.switch
  | .poll outcomes => world.poll outcomes

end ThreadWorld

/-- A thread that `pg_thread_init` has just launched. -/
def ThreadWorld.start (graphs : Nat → BitVec 64) (started : Nat → PgThreadState) :
    ThreadWorld κ where
  client := { queueSize := 0, queue := fun _ => ⟨.none, 0#64, 0#64⟩ }
  lock := none
  worker := Worker.start graphs started
  control := .top
  phase := fun _ => .idle
  asserted := false
  tickets := fun _ => 0
  issued := []
  log := []
  returned := []

/-- The runs of a thread. -/
def threadSystem (κ : Type) [DecidableEq κ] : System (ThreadWorld κ) (ThreadLabel κ) where
  initial := fun world => ∃ graphs started, world = ThreadWorld.start graphs started
  step := fun before label after => before.step label = some after

/-- Take some steps. -/
def ThreadWorld.after [DecidableEq κ] (world : ThreadWorld κ) :
    List (ThreadLabel κ) → Option (ThreadWorld κ)
  | [] => some world
  | label :: rest => (world.step label).bind (fun next => next.after rest)

theorem reachable_after [DecidableEq κ] {labels : List (ThreadLabel κ)}
    {world after : ThreadWorld κ} (reachable : (threadSystem κ).Reachable world)
    (ran : world.after labels = some after) : (threadSystem κ).Reachable after := by
  induction labels generalizing world with
  | nil =>
    cases ran
    exact reachable
  | cons label rest ih =>
    obtain ⟨next, stepped, continued⟩ := Option.bind_eq_some_iff.mp ran
    exact ih (.step label reachable stepped) continued

/-- One more step of a guarded run. -/
theorem guarded_step [DecidableEq κ] {guard : ThreadWorld κ → ThreadLabel κ → Prop}
    {before after : ThreadWorld κ} (label : ThreadLabel κ)
    (reachable : ((threadSystem κ).guarded guard).Reachable before) (meets : guard before label)
    (stepped : before.step label = some after) : ((threadSystem κ).guarded guard).Reachable after :=
  .step label reachable ⟨meets, stepped⟩

/-- The steps of one call that waits, served at once. -/
def servedCall {κ : Type} (who : κ) (call : ThreadCall) : List (ThreadLabel κ) :=
  [.begin who call, .enqueue who, .tryLock, .switch, .poll fun _ _ => none,
    .tryGetAnswer who, .takeAnswer who]

/-- The steps of one call that does not wait, served at once. -/
def servedStart {κ : Type} (who : κ) (call : ThreadCall) : List (ThreadLabel κ) :=
  [.begin who call, .enqueue who, .tryLock, .switch, .poll fun _ _ => none]

/-- The thread of the examples, before any call. -/
def idleThread : ThreadWorld Unit :=
  ThreadWorld.start (fun _ => 0#64) (fun _ => .stopped)

/-- A caller adds a graph, runs the thread, stops it and asks for its state. -/
def fourCalls : List (ThreadLabel Unit) :=
  servedCall () (.addGraph 1#64) ++ servedStart () .run ++ servedCall () .stop ++
    [.begin () .state, .enqueue (), .tryLock, .switch, .switch,
      .poll fun _ _ => none, .tryGetAnswer (), .takeAnswer ()]

end PacketGraph
