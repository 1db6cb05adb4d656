import PacketGraph.Flow.Bricks
import PacketGraph.Lib.Reachability

namespace PacketGraph

open BitScan Function TransitionSystem

/-!
# Two friend queues between two threads

One thread bursts into a queue and another polls its friend.  Both get at the
waiting bursts by atomic operations only, so each of these is a step of its
own, as is each pass over the packets of a burst.  A waiting burst keeps the
address of the sender's array: its packets are what stands there when they are
read.

Bursts are numbered in the order they are made.  The packets that stood in the
array then and what happened to each burst are kept as a history, which no
step of the program reads.
-/

/-- A burst in a queue with its number. -/
structure Waiting (π : Type) where
  number : Nat
  burst : QueueBurst π

/-- Where the sender is in `queue_burst`. -/
inductive BurstPhase (π : Type) where
  | idle
  | called (burst : QueueBurst π)
  /-- The queue was found full. -/
  | full (burst : QueueBurst π)
  /-- The oldest burst was taken out and is to be freed. -/
  | dropping (old : Waiting π) (burst : QueueBurst π)
  | room (burst : QueueBurst π)
  /-- The references are taken. -/
  | counted (burst : QueueBurst π)

/-- Where the other side is in `queue_poll`. -/
inductive PollPhase (π : Type) where
  | idle
  | popped (old : Waiting π)
  | forwarded (old : Waiting π)

/-- One entry of the history. -/
inductive QueueEvent (μ : Type) where
  /-- A reference to each packet was taken. -/
  | took (number : Nat) (packets : List μ)
  /-- A burst was thrown away while so many were waiting. -/
  | dropped (number waiting : Nat)
  | popped (number : Nat)
  | forwarded (number : Nat) (mask : BitVec 64) (packets : List μ)
  /-- A reference to each packet was given back. -/
  | released (number : Nat) (packets : List μ)

/-- The packets of a burst as they stand in memory. -/
def packetsOf {π μ : Type} (memory : π → Nat → μ) (burst : QueueBurst π) : List μ :=
  (lowBits burst.mask).map (memory burst.pkts)

/-- A queue, those who use it, and the memory of the sender. -/
structure QueuePair (π μ : Type) where
  rxMaxSize : BitVec 32
  memory : π → Nat → μ
  rx : List (Waiting π)
  sender : BurstPhase π
  poller : PollPhase π
  /-- The masks and the packets of the bursts made. -/
  sent : List (BitVec 64 × List μ)
  log : List (QueueEvent μ)

/-- One step of the sender or of the other side. -/
inductive QueueLabel (π μ : Type) where
  | burst (pkts : π) (mask : BitVec 64)
  | checkLength
  | dropOldest
  | freeDropped
  | incref
  | push
  | pop
  | forward
  | freePolled
  /-- The sender writes into one of its arrays. -/
  | overwrite (pkts : π) (index : Nat) (packet : μ)

namespace QueuePair

variable {π μ : Type} (pair : QueuePair π μ)

/-- The number of the burst that the sender makes. -/
def current : Nat :=
  pair.sent.length - 1

/-- The calls and steps of `queue_burst`. -/
def sends : QueueLabel π μ → Option (QueuePair π μ)
  | .burst pkts mask =>
    match pair.sender with
    | .idle =>
      let burst := { pkts := pkts, mask := mask }
      some { pair with
          sender := .called burst
          sent := pair.sent ++ [(mask, packetsOf pair.memory burst)] }
    | _ => none
  | .checkLength =>
    match pair.sender with
    | .called burst =>
      if pair.rxMaxSize.toInt ≤ (pair.rx.length : Int) then
        some { pair with sender := .full burst }
      else
        some { pair with sender := .room burst }
    | _ => none
  | .dropOldest =>
    match pair.sender, pair.rx with
    | .full burst, [] => some { pair with sender := .room burst }
    | .full burst, old :: rest =>
      some { pair with
          rx := rest
          sender := .dropping old burst
          log := pair.log ++ [.dropped old.number pair.rx.length] }
    | _, _ => none
  | .freeDropped =>
    match pair.sender with
    | .dropping old burst =>
      some { pair with
          sender := .room burst
          log :=
            pair.log ++ [.released old.number (packetsOf pair.memory old.burst)] }
    | _ => none
  | .incref =>
    match pair.sender with
    | .room burst =>
      some { pair with
          sender := .counted burst
          log :=
            pair.log ++ [.took pair.current (packetsOf pair.memory burst)] }
    | _ => none
  | .push =>
    match pair.sender with
    | .counted burst =>
      some { pair with
          rx := pair.rx ++ [{ number := pair.current, burst := burst }]
          sender := .idle }
    | _ => none
  | _ => none

/-- The steps of `queue_poll`. -/
def polls : QueueLabel π μ → Option (QueuePair π μ)
  | .pop =>
    match pair.poller, pair.rx with
    | .idle, [] => some pair
    | .idle, old :: rest =>
      some { pair with rx := rest, poller := .popped old, log := pair.log ++ [.popped old.number] }
    | _, _ => none
  | .forward =>
    match pair.poller with
    | .popped old =>
      some { pair with
          poller := .forwarded old
          log :=
            pair.log ++ [.forwarded old.number old.burst.mask (packetsOf pair.memory old.burst)] }
    | _ => none
  | .freePolled =>
    match pair.poller with
    | .forwarded old =>
      some { pair with
          poller := .idle
          log :=
            pair.log ++ [.released old.number (packetsOf pair.memory old.burst)] }
    | _ => none
  | _ => none

/-- The sender writes into its array after its burst has returned. -/
def overwrites [DecidableEq π] (pkts : π) (index : Nat) (packet : μ) : Option (QueuePair π μ) :=
  match pair.sender with
  | .idle =>
    some { pair with memory := update pair.memory pkts (update (pair.memory pkts) index packet) }
  | _ => none

/-- The step of a label. -/
def step [DecidableEq π] (label : QueueLabel π μ) : Option (QueuePair π μ) :=
  match label with
  | .overwrite pkts index packet => pair.overwrites pkts index packet
  | .pop => pair.polls .pop
  | .forward => pair.polls .forward
  | .freePolled => pair.polls .freePolled
  | label => pair.sends label

end QueuePair

/-- Two queues that became friends; no size is a size of ten. -/
def QueuePair.start {π μ : Type} (memory : π → Nat → μ) (size : BitVec 32) : QueuePair π μ where
  rxMaxSize := if size = 0#32 then 10#32 else size
  memory := memory
  rx := []
  sender := .idle
  poller := .idle
  sent := []
  log := []

/-- The runs of two friend queues. -/
def queueSystem (π μ : Type) [DecidableEq π] : System (QueuePair π μ) (QueueLabel π μ) :=
  .ofStep (fun pair => ∃ memory size, pair = QueuePair.start memory size)
    (fun pair label => pair.step label)

end PacketGraph
