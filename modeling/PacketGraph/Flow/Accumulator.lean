import PacketGraph.Flow.Forward

namespace PacketGraph

open BitScan Function List

/-!
# The accumulator

An accumulator keeps the packets of each direction until it holds a whole
burst of them, or until it has been polled often enough.  Every packet it
keeps has a reference of its own, which is given back after sending.

A call is described by the events it makes on packets, in order.  Linking may
change between calls, so a call comes with the brick as it stands.  A burst to
a side without a neighbour ends in `pg_brick_burst`, as everywhere, and the
packets of it are given back without having been sent.
-/

variable {ι π : Type}

section Model

/-- `struct pg_vec`; a place that was never written reads as `none`. -/
structure PgVec (π : Type) where
  mbufs : Nat → Option π
  len : Nat

/-- The private state of an accumulator; no output is `PG_MAX_SIDE`. -/
structure AccumulatorState (π : Type) where
  output : Option Side
  burstVec : Side → PgVec π
  pollCount : Side → Nat
  pollMin : Nat

/-- What happens to packets while an accumulator handles a call. -/
inductive AccumulatorEvent (ι π : Type) where
  /-- A reference to a packet was taken. -/
  | took (packet : π)
  /-- `pg_brick_burst` was called on the edge of a side. -/
  | sent (side : Side) (call : Option (Send ι)) (mbufs : Nat → Option π) (mask : BitVec 64)
  /-- A reference to each packet of a mask was given back. -/
  | released (mbufs : Nat → Option π) (mask : BitVec 64)

/-- The state that a call leaves, with its events. -/
structure Accumulated (ι π : Type) where
  state : AccumulatorState π
  events : List (AccumulatorEvent ι π)

/-- `accumulator_snd_pkts` on one of the sides, for the vector of that side. -/
def accumulatorSndPkts (brick : Brick ι) (state : AccumulatorState π) (side os : Side) :
    Nat × Accumulated ι π :=
  let v := state.burstVec side
  let pktsMask := pgMaskFirsts v.len
  (v.len,
    { state :=
        { state with burstVec := update state.burstVec side { v with len := 0 } }
      events :=
        [.sent side (edgeSend brick side 0 os pktsMask) v.mbufs pktsMask,
          .released v.mbufs pktsMask] })

/-- Write a packet behind those of a vector and take a reference to it. -/
def accumulatorPush (state : AccumulatorState π) (output : Side) (packet : π) :
    Accumulated ι π where
  state :=
    { state with
      burstVec :=
        update state.burstVec output
          { mbufs :=
              update (state.burstVec output).mbufs (state.burstVec output).len (some packet)
            len := (state.burstVec output).len + 1 } }
  events := [.took packet]

/-- One round of the loop of `accumulator_burst`. -/
def accumulatorRound (brick : Brick ι) (state : AccumulatorState π) (fromSide : Side) (packet : π) :
    Except Abort (Accumulated ι π) :=
  let output := pgFlipSide fromSide
  if pgMaxPktsBurst ≤ (state.burstVec output).len then
    -- the packet would be written past the end of `mbufs`
    .error .fault
  else
    let pushed : Accumulated ι π := accumulatorPush state output packet
    if (pushed.state.burstVec output).len = pgMaxPktsBurst then
      let sent := (accumulatorSndPkts brick pushed.state output fromSide).2
      .ok { sent with events := pushed.events ++ sent.events }
    else
      .ok pushed

/-- The loop of `accumulator_burst` over the packets of a mask. -/
def accumulatorBurstFrom (brick : Brick ι) (fromSide : Side) :
    List π → AccumulatorState π → Except Abort (Accumulated ι π)
  | [], state => .ok { state := state, events := [] }
  | packet :: rest, state =>
    match accumulatorRound brick state fromSide packet with
    | .error failure => .error failure
    | .ok first =>
      match accumulatorBurstFrom brick fromSide rest first.state with
      | .error failure => .error failure
      | .ok later => .ok { later with events := first.events ++ later.events }

/-- `accumulator_burst`. -/
def accumulatorBurst (brick : Brick ι) (state : AccumulatorState π) (fromSide : Side)
    (pkts : Nat → π) (pktsMask : BitVec 64) : Except Abort (Accumulated ι π) :=
  accumulatorBurstFrom brick fromSide ((lowBits pktsMask).map pkts) state

/-- `accumulator_try_poll_side`. -/
def accumulatorTryPollSide (brick : Brick ι) (state : AccumulatorState π) (pollDir : Side) :
    Nat × Accumulated ι π :=
  if state.pollCount pollDir < state.pollMin then
    (0,
      { state :=
          { state with pollCount := update state.pollCount pollDir (state.pollCount pollDir + 1) }
        events := [] })
  else
    accumulatorSndPkts brick
      { state with pollCount := update state.pollCount pollDir 0 } pollDir (pgFlipSide pollDir)

/-- `accumulator_poll`, with the value it gives to `*pkts_cnt`. -/
def accumulatorPoll (brick : Brick ι) (state : AccumulatorState π) : Nat × Accumulated ι π :=
  match state.output with
  | none =>
    let west := accumulatorTryPollSide brick state .west
    let east := accumulatorTryPollSide brick west.2.state .east
    ((west.1 + east.1) % 65536, { east.2 with events := west.2.events ++ east.2.events })
  | some output =>
    let polled := accumulatorTryPollSide brick state (pgFlipSide output)
    (polled.1 % 65536, polled.2)

/-- `accumulator_init`; the vectors come from zeroed memory. -/
def accumulatorInit (output : Option Side) (pollMin : BitVec 64) : AccumulatorState π where
  output := output
  burstVec := fun _ => { mbufs := fun _ => none, len := 0 }
  pollCount := fun _ => 0
  pollMin := pollMin.toNat % 65536

/-- The `destroy` callback of `accumulator_ops`, which is not set. -/
def accumulatorOpsDestroy : Option (AccumulatorState π → List (AccumulatorEvent ι π)) :=
  none

/-- What the last `pg_brick_decref` of an accumulator does to packets. -/
def accumulatorDecref (state : AccumulatorState π) : List (AccumulatorEvent ι π) :=
  match accumulatorOpsDestroy with
  | none => []
  | some destroy => destroy state

/-- A call of an accumulator, with the brick as it stands then. -/
inductive AccumulatorCall (ι π : Type) where
  | burst (brick : Brick ι) (fromSide : Side) (pkts : Nat → π) (pktsMask : BitVec 64)
  | poll (brick : Brick ι)

/-- Execute one call. -/
def AccumulatorCall.exec (state : AccumulatorState π) :
    AccumulatorCall ι π → Except Abort (Accumulated ι π)
  | .burst brick fromSide pkts pktsMask => accumulatorBurst brick state fromSide pkts pktsMask
  | .poll brick => .ok (accumulatorPoll brick state).2

/-- Execute calls one after the other. -/
def accumulatorRun :
    AccumulatorState π → List (AccumulatorCall ι π) → Except Abort (Accumulated ι π)
  | state, [] => .ok { state := state, events := [] }
  | state, call :: rest =>
    match call.exec state with
    | .error failure => .error failure
    | .ok first =>
      match accumulatorRun first.state rest with
      | .error failure => .error failure
      | .ok later => .ok { later with events := first.events ++ later.events }

end Model

section Histories

/-- The packets that a call receives on a side. -/
def AccumulatorCall.received (side : Side) :
    AccumulatorCall ι π → List π
  | .burst _ fromSide pkts pktsMask => if fromSide = side then (lowBits pktsMask).map pkts else []
  | .poll _ => []

/-- The packets received on a side, in order. -/
def receivedFrom (side : Side) (calls : List (AccumulatorCall ι π)) : List π :=
  calls.flatMap (fun call => call.received side)

/-- The packets that an event hands to the neighbour of a side, by increasing bit. -/
def AccumulatorEvent.sentPackets (side : Side) : AccumulatorEvent ι π → List (Option π)
  | .sent place (some _) mbufs mask => if place = side then (lowBits mask).map mbufs else []
  | _ => []

/-- The packets sent on a side, in order. -/
def sentOn (side : Side) (events : List (AccumulatorEvent ι π)) : List (Option π) :=
  events.flatMap (fun event => event.sentPackets side)

/-- The packets that leave the vector of a side, whether or not they are sent. -/
def AccumulatorEvent.flushedPackets (side : Side) : AccumulatorEvent ι π → List (Option π)
  | .sent place _ mbufs mask => if place = side then (lowBits mask).map mbufs else []
  | _ => []

/-- The packets that left the vector of a side, in order. -/
def flushedOn (side : Side) (events : List (AccumulatorEvent ι π)) : List (Option π) :=
  events.flatMap (fun event => event.flushedPackets side)

/-- An event that takes packets from the vector of a side hands them to a neighbour. -/
def AccumulatorEvent.Reaches (side : Side) : AccumulatorEvent ι π → Prop
  | .sent place call _ mask => place = side → lowBits mask ≠ [] → call.isSome = true
  | _ => True

/-- The references that an event takes. -/
def AccumulatorEvent.taken : AccumulatorEvent ι π → List (Option π)
  | .took packet => [some packet]
  | _ => []

/-- All references taken. -/
def referencesTaken (events : List (AccumulatorEvent ι π)) : List (Option π) :=
  events.flatMap (fun event => event.taken)

/-- The references that an event gives back. -/
def AccumulatorEvent.givenBack : AccumulatorEvent ι π → List (Option π)
  | .released mbufs mask => (lowBits mask).map mbufs
  | _ => []

/-- All references given back. -/
def referencesReleased (events : List (AccumulatorEvent ι π)) : List (Option π) :=
  events.flatMap (fun event => event.givenBack)

/-- The packets held by a vector. -/
def PgVec.held (vec : PgVec π) : List (Option π) :=
  (List.range vec.len).map vec.mbufs

/-- The packets and the mask of a sending agree. -/
def AccumulatorEvent.Agrees : AccumulatorEvent ι π → Prop
  | .sent _ call mbufs mask =>
    (∃ packets : List π, packets.length ≤ pgMaxPktsBurst ∧
        lowBits mask = List.range packets.length ∧ (lowBits mask).map mbufs = packets.map some) ∧
      ∀ send, call = some send → send.mask = mask
  | _ => True

/-- No event sends more than it takes, and as much exactly if it reaches a neighbour. -/
theorem length_sentPackets (side : Side) (event : AccumulatorEvent ι π) :
    (event.sentPackets side).length ≤ (event.flushedPackets side).length ∧
      ((event.sentPackets side).length = (event.flushedPackets side).length ↔
        event.Reaches side) := by
  cases event with
  | took packet | released mbufs mask =>
    simp [AccumulatorEvent.sentPackets, AccumulatorEvent.flushedPackets, AccumulatorEvent.Reaches]
  | sent place call mbufs mask =>
    by_cases isSide : place = side
    · cases call <;>
        simp [AccumulatorEvent.sentPackets, AccumulatorEvent.flushedPackets,
          AccumulatorEvent.Reaches, isSide, eq_comm (a := 0)]
    · cases call <;>
        simp [AccumulatorEvent.sentPackets, AccumulatorEvent.flushedPackets,
          AccumulatorEvent.Reaches, isSide]

theorem AccumulatorEvent.Reaches.sent_eq {side : Side} {event : AccumulatorEvent ι π}
    (reaches : event.Reaches side) : event.sentPackets side = event.flushedPackets side := by
  cases event with
  | took packet | released mbufs mask => rfl
  | sent place call mbufs mask =>
    cases call with
    | some send => rfl
    | none =>
      simp only [sentPackets, flushedPackets]
      split
      · rename_i isSide
        have nothing : lowBits mask = [] := by
          by_contra something
          exact absurd (reaches isSide something) (by simp)
        rw [nothing, map_nil]
      · rfl

/-- Nothing that left the vector of a side was lost exactly if all events reach a neighbour. -/
theorem length_sentOn (side : Side) (events : List (AccumulatorEvent ι π)) :
    (sentOn side events).length ≤ (flushedOn side events).length ∧
      ((sentOn side events).length = (flushedOn side events).length ↔
        ∀ event ∈ events, event.Reaches side) := by
  induction events with
  | nil => simp [sentOn, flushedOn]
  | cons event rest ih =>
    have now := length_sentPackets side event
    simp only [sentOn, flushedOn, flatMap_cons, length_append, forall_mem_cons] at ih ⊢
    rw [← now.2, ← ih.2]
    omega

@[simp] theorem flushedOn_append (side : Side) (events later : List (AccumulatorEvent ι π)) :
    flushedOn side (events ++ later) = flushedOn side events ++ flushedOn side later :=
  flatMap_append

@[simp] theorem referencesTaken_append (events later : List (AccumulatorEvent ι π)) :
    referencesTaken (events ++ later) = referencesTaken events ++ referencesTaken later :=
  flatMap_append

@[simp] theorem referencesReleased_append (events later : List (AccumulatorEvent ι π)) :
    referencesReleased (events ++ later) = referencesReleased events ++ referencesReleased later :=
  flatMap_append

end Histories

section Counts

/-- How many packets a side holds, and how often it was polled since it was flushed. -/
structure SideCount where
  held : Nat
  polls : Nat

/-- A side of a brick has a neighbour on its first edge. -/
def HasNeighbour (brick : Brick ι) (side : Side) : Prop :=
  ∃ edge, (brick.sides side).edges[0]? = some edge ∧ edge.link.isSome = true

theorem isSome_edgeSend_iff (brick : Brick ι) (side os : Side) (mask : BitVec 64) :
    (edgeSend brick side 0 os mask).isSome = true ↔ HasNeighbour brick side := by
  unfold edgeSend HasNeighbour
  cases (brick.sides side).edges[0]? with
  | none => simp
  | some edge =>
    obtain ⟨link, pairIndex⟩ := edge
    cases link <;> simp

/-- A poll looks at a side: at both without an output, and else at the other one. -/
def PollsSide (output : Option Side) (side : Side) : Prop :=
  output = none ∨ output = some (pgFlipSide side)

instance (output : Option Side) (side : Side) : Decidable (PollsSide output side) :=
  inferInstanceAs (Decidable (_ ∨ _))

/-- The counts of a side after packets for it came in. -/
def SideCount.filled (count : SideCount) (packets : Nat) : SideCount :=
  { count with held := (count.held + packets) % pgMaxPktsBurst }

/-- The counts of a side after it was polled. -/
def SideCount.polled (count : SideCount) (pollMin : Nat) : SideCount :=
  if count.polls < pollMin then
    { count with polls := count.polls + 1 }
  else
    { held := 0, polls := 0 }

/-- The counts of a side after a call. -/
def AccumulatorCall.counted (output : Option Side) (pollMin : Nat) (side : Side)
    (count : SideCount) : AccumulatorCall ι π → SideCount
  | .burst _ fromSide _ pktsMask =>
    if side = pgFlipSide fromSide then count.filled (lowBits pktsMask).length else count
  | .poll _ => if PollsSide output side then count.polled pollMin else count

/--
A call that flushes packets of a side finds a neighbour there: a burst that
fills the vector, and a poll that is due while packets are held.
-/
def AccumulatorCall.FindsNeighbour (output : Option Side) (pollMin : Nat) (side : Side)
    (count : SideCount) : AccumulatorCall ι π → Prop
  | .burst brick fromSide _ pktsMask =>
    side = pgFlipSide fromSide →
    pgMaxPktsBurst ≤ count.held + (lowBits pktsMask).length →
    HasNeighbour brick side
  | .poll brick =>
    PollsSide output side →
    pollMin ≤ count.polls →
    0 < count.held →
    HasNeighbour brick side

/-- All that a side is given in some calls is flushed in them, always to a neighbour. -/
def FlushesAll (output : Option Side) (pollMin : Nat) (side : Side) :
    SideCount → List (AccumulatorCall ι π) → Prop
  | count, [] => count.held = 0
  | count, call :: rest =>
    call.FindsNeighbour output pollMin side count ∧
      FlushesAll output pollMin side (call.counted output pollMin side count) rest

end Counts

section Tracking

/--
What the events so far and the vectors say about the packets received on each
side, and when all events reach a neighbour.  A vector may be full while a
burst is handled, and what leaves it may be lost.
-/
structure Tracks (received : Side → List π) (found : Side → Prop)
    (events : List (AccumulatorEvent ι π)) (state : AccumulatorState π) : Prop where
  fifo : ∀ side, flushedOn side events ++ (state.burstVec side).held =
        (received (pgFlipSide side)).map some
  bound : ∀ side, (state.burstVec side).len ≤ pgMaxPktsBurst
  agrees : ∀ event ∈ events, event.Agrees
  balance : (referencesReleased events ++
        ((state.burstVec .west).held ++ (state.burstVec .east).held)).Perm (referencesTaken events)
  reaches : ∀ side, (∀ event ∈ events, event.Reaches side) ↔ found side

variable {received : Side → List π} {found : Side → Prop}
variable {events : List (AccumulatorEvent ι π)}
variable {state : AccumulatorState π}

theorem Tracks.congr {needed : Side → Prop} (tracks : Tracks received found events state)
    (same : ∀ side, found side ↔ needed side) : Tracks received needed events state :=
  { tracks with reaches := fun side => (tracks.reaches side).trans (same side) }

theorem Tracks.withPollCount (tracks : Tracks received found events state)
    (pollCount : Side → Nat) :
    Tracks received found events { state with pollCount := pollCount } :=
  { tracks with }

/-- A written packet is the last one that the vector holds. -/
theorem held_push (vec : PgVec π) (packet : π) :
    PgVec.held
        { mbufs := update vec.mbufs vec.len (some packet)
          len := vec.len + 1 } =
      vec.held ++ [some packet] := by
  unfold PgVec.held
  dsimp only
  rw [range_succ, map_append, map_singleton, update_self]
  congr 1
  refine map_congr_left (fun place member => ?_)
  exact update_of_ne (Nat.ne_of_lt (mem_range.mp member)) _ _

/-- What was received, with more packets on a side. -/
def receive (received : Side → List π) (side : Side) (packets : List π) : Side → List π :=
  update received side (received side ++ packets)

@[simp] theorem receive_nil (received : Side → List π) (side : Side) :
    receive received side [] = received := by
  simp [receive]

theorem receive_receive (received : Side → List π) (side : Side) (packets later : List π) :
    receive (receive received side packets) side later =
      receive received side (packets ++ later) := by
  simp [receive]

theorem eq_pgFlipSide_iff {side other : Side} :
    other = pgFlipSide side ↔ side = pgFlipSide other := by
  cases side <;> cases other <;> decide

section Push

variable {output : Side} (packet : π)

/-- The vectors after a packet was taken in. -/
theorem burstVec_push (side : Side) :
    ((accumulatorPush state output packet : Accumulated ι π).state.burstVec side).held =
      (state.burstVec side).held ++ if side = output then [some packet] else [] := by
  simp only [accumulatorPush]
  by_cases isOutput : side = output
  · rw [isOutput, update_self, if_pos rfl]
    exact held_push _ packet
  · rw [update_of_ne isOutput, if_neg isOutput, append_nil]

/-- Taking a packet in makes one vector longer. -/
theorem len_push (side : Side) :
    ((accumulatorPush state output packet : Accumulated ι π).state.burstVec side).len =
      (state.burstVec side).len + if side = output then 1 else 0 := by
  simp only [accumulatorPush]
  by_cases isOutput : side = output
  · rw [isOutput, update_self, if_pos rfl]
  · rw [update_of_ne isOutput, if_neg isOutput, Nat.add_zero]

/-- Taking a packet in adds it to what its side received, and sends nothing. -/
theorem Tracks.push (tracks : Tracks received found events state)
    (notFull : (state.burstVec output).len < pgMaxPktsBurst) {pushed : Accumulated ι π}
    (isPushed : pushed = accumulatorPush state output packet) :
    Tracks (receive received (pgFlipSide output) [packet]) found
      (events ++ pushed.events) pushed.state := by
  have isEvent : pushed.events = [.took packet] := by
    rw [isPushed]
    rfl
  have held (side : Side) : (pushed.state.burstVec side).held = (state.burstVec side).held ++
          if side = output then [some packet] else [] := by
    rw [isPushed]
    exact burstVec_push packet side
  rw [isEvent]
  constructor
  · intro side
    have nothing : flushedOn side ([.took packet] : List (AccumulatorEvent ι π)) = [] := rfl
    rw [flushedOn_append, nothing, append_nil, held, ← append_assoc, tracks.fifo side]
    unfold receive
    by_cases isOutput : side = output
    · rw [if_pos isOutput, isOutput, update_self, map_append]
      rfl
    · have otherSide : pgFlipSide side ≠ pgFlipSide output :=
        fun same => isOutput (by simpa using congrArg pgFlipSide same)
      rw [if_neg isOutput, update_of_ne otherSide, append_nil]
  · intro side
    rw [isPushed, len_push]
    by_cases isOutput : side = output
    · rw [if_pos isOutput, isOutput]
      exact notFull
    · rw [if_neg isOutput]
      exact tracks.bound side
  · simpa [or_imp, forall_and, AccumulatorEvent.Agrees] using tracks.agrees
  · have nothing : referencesReleased ([.took packet] : List (AccumulatorEvent ι π)) = [] := rfl
    rw [referencesReleased_append, referencesTaken_append, nothing, append_nil, held, held]
    refine List.Perm.trans ?_ (tracks.balance.append_right [some packet])
    cases output with
    | west =>
      simp only [if_true, reduceCtorEq, if_false, append_nil, append_assoc]
      exact (perm_append_comm.append_left _).append_left _
    | east =>
      simp only [if_true, reduceCtorEq, if_false, append_nil, append_assoc]
      exact .refl _
  · simpa [or_imp, forall_and, AccumulatorEvent.Reaches] using tracks.reaches

end Push

section Sending

variable {brick : Brick ι} {side os : Side}

/-- The mask of the held packets of a side names places that hold a packet. -/
theorem Tracks.sending_agrees (tracks : Tracks received found events state) (side : Side) :
    ∃ packets : List π, packets.length ≤ pgMaxPktsBurst ∧
        lowBits (pgMaskFirsts (state.burstVec side).len) = List.range packets.length ∧
        (lowBits (pgMaskFirsts (state.burstVec side).len)).map (state.burstVec side).mbufs =
          packets.map some := by
  obtain ⟨_, packets, _, _, isHeld⟩ := append_eq_map_iff.mp (tracks.fifo side)
  have sameLength : packets.length = (state.burstVec side).len := by
    have lengths := congrArg List.length isHeld
    simpa [PgVec.held] using lengths
  rw [lowBits_pgMaskFirsts (tracks.bound side)]
  exact ⟨packets, sameLength ▸ tracks.bound side, by rw [sameLength], isHeld.symm⟩

/-- Sending empties one vector. -/
theorem len_sndPkts (other : Side) :
    ((accumulatorSndPkts brick state side os).2.state.burstVec other).len =
      if other = side then 0 else (state.burstVec other).len := by
  simp only [accumulatorSndPkts]
  by_cases same : other = side
  · rw [same, update_self, if_pos rfl]
  · rw [update_of_ne same, if_neg same]

/-- What the vectors hold once one was sent. -/
theorem held_sndPkts (other : Side) :
    ((accumulatorSndPkts brick state side os).2.state.burstVec other).held =
      if side = other then [] else (state.burstVec other).held := by
  simp only [accumulatorSndPkts]
  by_cases same : side = other
  · rw [if_pos same, same, update_self]
    rfl
  · rw [if_neg same, update_of_ne (Ne.symm same)]

/-- Sending moves what a vector holds to the sent packets, if it finds a neighbour. -/
theorem Tracks.sndPkts (tracks : Tracks received found events state) {sent : Accumulated ι π}
    (isSent : sent = (accumulatorSndPkts brick state side os).2) :
    Tracks received
      (fun other => found other ∧
        (other = side → 0 < (state.burstVec side).len → HasNeighbour brick side))
      (events ++ sent.events) sent.state := by
  have places := lowBits_pgMaskFirsts (tracks.bound side)
  have whole : (lowBits (pgMaskFirsts (state.burstVec side).len)).map (state.burstVec side).mbufs =
        (state.burstVec side).held := by
    rw [places]
    rfl
  have sentNow (other : Side) : flushedOn other sent.events =
        if side = other then (state.burstVec side).held else [] := by
    rw [isSent, ← whole]
    exact append_nil _
  have releasedNow : referencesReleased sent.events = (state.burstVec side).held := by
    rw [isSent, ← whole]
    exact append_nil _
  have noneTaken : referencesTaken sent.events = [] := by
    rw [isSent]
    rfl
  have held (other : Side) : (sent.state.burstVec other).held =
        if side = other then [] else (state.burstVec other).held :=
    isSent ▸ held_sndPkts other
  constructor
  · intro other
    rw [flushedOn_append, sentNow, held, ← tracks.fifo other]
    by_cases same : side = other
    · rw [if_pos same, if_pos same, same, append_nil]
    · rw [if_neg same, if_neg same, append_nil]
  · intro other
    rw [isSent, len_sndPkts]
    split
    · exact Nat.zero_le _
    · exact tracks.bound other
  · rw [isSent]
    refine forall_mem_append.mpr ⟨tracks.agrees, forall_mem_cons.mpr
      ⟨?_, forall_mem_singleton.mpr trivial⟩⟩
    exact ⟨tracks.sending_agrees side, fun _ isSend => (edgeSend_eq_some isSend).2⟩
  · rw [referencesReleased_append, referencesTaken_append, releasedNow,
      noneTaken, append_nil, held, held]
    refine List.Perm.trans ?_ tracks.balance
    cases side with
    | west =>
      simp only [if_true, reduceCtorEq, if_false, nil_append, append_assoc]
      exact .refl _
    | east =>
      simp only [if_true, reduceCtorEq, if_false, append_nil, append_assoc]
      exact perm_append_comm.append_left _
  · intro other
    rw [forall_mem_append, tracks.reaches other, isSent]
    refine and_congr_right (fun _ => ?_)
    simp only [accumulatorSndPkts, forall_mem_cons, not_mem_nil, false_imp_iff, implies_true,
      and_true, AccumulatorEvent.Reaches, isSome_edgeSend_iff, places, ne_eq, range_eq_nil,
      Nat.pos_iff_ne_zero]
    rw [eq_comm]

end Sending

section Calls

variable {brick : Brick ι} {output : Option Side} {pollMin : Nat} {counts : Side → SideCount}

/-- The counts of a side. -/
def AccumulatorState.count (state : AccumulatorState π) (side : Side) : SideCount where
  held := (state.burstVec side).len
  polls := state.pollCount side

/-- What holds between calls: no vector is full, and the sides are counted. -/
structure Drained (output : Option Side) (pollMin : Nat) (received : Side → List π)
    (found : Side → Prop) (counts : Side → SideCount) (events : List (AccumulatorEvent ι π))
    (state : AccumulatorState π) : Prop where
  output : state.output = output
  pollMin : state.pollMin = pollMin
  tracks : Tracks received found events state
  counted : state.count = counts
  room : ∀ side, (counts side).held < pgMaxPktsBurst

variable {polled : Accumulated ι π}

section

variable (settled : Drained output pollMin received found counts events state)

include settled

theorem Drained.congr {needed : Side → Prop} {others : Side → SideCount}
    (sameFound : ∀ side, found side ↔ needed side)
    (sameCounts : ∀ side, counts side = others side) :
    Drained output pollMin received needed others events state := by
  obtain rfl := funext sameCounts
  exact { settled with tracks := settled.tracks.congr sameFound }

/-- Polling one side sends what it holds or only counts. -/
theorem Drained.tryPollSide {pollDir : Side}
    (isPolled : polled = (accumulatorTryPollSide brick state pollDir).2) :
    Drained output pollMin received
      (fun side => found side ∧ (side = pollDir → pollMin ≤ (counts side).polls →
        0 < (counts side).held → HasNeighbour brick side))
      (fun side => if side = pollDir then (counts side).polled pollMin else counts side)
      (events ++ polled.events) polled.state := by
  obtain ⟨rfl, rfl, tracks, rfl, room⟩ := settled
  have stillRoom (side : Side) : (if side = pollDir then (state.count side).polled state.pollMin
          else state.count side).held < pgMaxPktsBurst := by
    unfold SideCount.polled
    split
    · split
      · exact room side
      · exact Nat.zero_lt_succ _
    · exact room side
  subst isPolled
  unfold accumulatorTryPollSide
  by_cases early : state.pollCount pollDir < state.pollMin
  · rw [if_pos early, append_nil]
    refine ⟨rfl, rfl, (tracks.withPollCount _).congr (fun side => ?_), funext (fun side => ?_),
      stillRoom⟩
    · refine (and_iff_left ?_).symm
      rintro rfl due
      exact absurd early (not_lt.mpr due)
    · unfold AccumulatorState.count SideCount.polled
      by_cases isDir : side = pollDir
      · simp [isDir, early]
      · simp [isDir]
  · rw [if_neg early]
    refine ⟨rfl, rfl, ((tracks.withPollCount _).sndPkts rfl).congr (fun side => ?_),
      funext (fun side => ?_), stillRoom⟩
    · refine and_congr_right (fun _ => forall_congr' (fun isDir => ?_))
      subst isDir
      exact ⟨fun finds _ => finds, fun finds => finds (not_lt.mp early)⟩
    · unfold AccumulatorState.count SideCount.polled
      rw [len_sndPkts]
      by_cases isDir : side = pollDir
      · simp [isDir, early, accumulatorSndPkts]
      · simp [isDir, accumulatorSndPkts]

/-- A poll sends what is held on the polled sides, or only counts. -/
theorem Drained.poll (isPolled : polled = (accumulatorPoll brick state).2) :
    Drained output pollMin received
      (fun side => found side ∧ (.poll brick : AccumulatorCall ι π).FindsNeighbour output
        pollMin side (counts side))
      (fun side => (.poll brick : AccumulatorCall ι π).counted output pollMin side (counts side))
      (events ++ polled.events) polled.state := by
  subst isPolled
  unfold accumulatorPoll
  rw [settled.output]
  cases output with
  | none =>
    dsimp only
    rw [← append_assoc]
    refine ((settled.tryPollSide rfl).tryPollSide rfl).congr ?_ ?_
    · intro side
      cases side <;> simp [AccumulatorCall.FindsNeighbour, PollsSide]
    · intro side
      cases side <;> simp [AccumulatorCall.counted, PollsSide]
  | some output =>
    refine (settled.tryPollSide rfl).congr ?_ ?_
    · simp [AccumulatorCall.FindsNeighbour, PollsSide, @eq_pgFlipSide_iff output]
    · simp [AccumulatorCall.counted, PollsSide, @eq_pgFlipSide_iff output]

/-- One round of a burst takes the packet in and may send a whole burst. -/
theorem Drained.round (brick : Brick ι) (fromSide : Side) (packet : π) :
    ∃ after, accumulatorRound brick state fromSide packet = .ok after ∧
        Drained output pollMin (receive received fromSide [packet])
          (fun side => found side ∧ (side = pgFlipSide fromSide →
            pgMaxPktsBurst ≤ (counts side).held + 1 → HasNeighbour brick side))
          (fun side => if side = pgFlipSide fromSide then (counts side).filled 1 else counts side)
          (events ++ after.events) after.state := by
  obtain ⟨rfl, rfl, tracks, rfl, room⟩ := settled
  have stillRoom (side : Side) : (if side = pgFlipSide fromSide then (state.count side).filled 1
          else state.count side).held < pgMaxPktsBurst := by
    split
    · exact Nat.mod_lt _ (by decide)
    · exact room side
  have space : (state.burstVec (pgFlipSide fromSide)).len < pgMaxPktsBurst := room _
  have pushed := tracks.push packet space rfl
  rw [pgFlipSide_pgFlipSide] at pushed
  have length : ((accumulatorPush state (pgFlipSide fromSide) packet :
          Accumulated ι π).state.burstVec (pgFlipSide fromSide)).len =
        (state.burstVec (pgFlipSide fromSide)).len + 1 := by
    rw [len_push, if_pos rfl]
  unfold accumulatorRound
  rw [if_neg (Nat.not_le.mpr space)]
  dsimp only
  rw [length]
  by_cases isFull : (state.burstVec (pgFlipSide fromSide)).len + 1 = pgMaxPktsBurst
  · rw [if_pos isFull]
    refine ⟨_, rfl, rfl, rfl, ?_, funext (fun side => ?_), stillRoom⟩
    · rw [← append_assoc]
      refine (pushed.sndPkts rfl).congr (fun side => and_congr_right (fun _ => ?_))
      rw [length]
      refine forall_congr' (fun same => ?_)
      subst same
      exact ⟨fun finds _ => finds (Nat.succ_pos _), fun finds _ => finds isFull.ge⟩
    · unfold AccumulatorState.count SideCount.filled
      rw [len_sndPkts, len_push]
      by_cases same : side = pgFlipSide fromSide
      · subst same
        rw [if_pos rfl, if_pos rfl, isFull, Nat.mod_self]
        rfl
      · rw [if_neg same, if_neg same, if_neg same]
        rfl
  · rw [if_neg isFull]
    refine ⟨_, rfl, rfl, rfl, pushed.congr (fun side => (and_iff_left ?_).symm),
      funext (fun side => ?_), stillRoom⟩
    · rintro rfl reached
      exact absurd (Nat.le_antisymm space reached) isFull
    · unfold AccumulatorState.count SideCount.filled
      rw [len_push]
      by_cases same : side = pgFlipSide fromSide
      · subst same
        rw [if_pos rfl, if_pos rfl, Nat.mod_eq_of_lt (lt_of_le_of_ne space isFull)]
        rfl
      · rw [if_neg same, if_neg same]
        rfl

/-- A burst takes its packets in, in order, and flushes a vector when it is full. -/
theorem Drained.burstFrom (brick : Brick ι) (fromSide : Side) (packets : List π) :
    ∃ after, accumulatorBurstFrom brick fromSide packets state = .ok after ∧
        Drained output pollMin (receive received fromSide packets)
          (fun side => found side ∧ (side = pgFlipSide fromSide →
            pgMaxPktsBurst ≤ (counts side).held + packets.length → HasNeighbour brick side))
          (fun side =>
            if side = pgFlipSide fromSide then (counts side).filled packets.length
            else counts side)
          (events ++ after.events) after.state := by
  induction packets generalizing received found counts events state with
  | nil =>
    refine ⟨_, rfl, ?_⟩
    rw [receive_nil, append_nil]
    refine settled.congr (fun side => (and_iff_left (fun _ reached => ?_)).symm) (fun side => ?_)
    · exact absurd reached (not_le.mpr (settled.room side))
    · unfold SideCount.filled
      rw [length_nil, Nat.add_zero, Nat.mod_eq_of_lt (settled.room side), ite_self]
  | cons packet rest ih =>
    obtain ⟨first, isFirst, firstSettled⟩ := settled.round brick fromSide packet
    obtain ⟨later, isLater, laterSettled⟩ := ih firstSettled
    refine ⟨{ later with events := first.events ++ later.events }, ?_, ?_⟩
    · simp only [accumulatorBurstFrom, isFirst, isLater]
    · rw [receive_receive, append_assoc] at laterSettled
      refine laterSettled.congr (fun side => ?_) (fun side => ?_)
      · rw [and_assoc, length_cons]
        refine and_congr_right (fun _ => ?_)
        by_cases same : side = pgFlipSide fromSide
        · -- the vector is full after this packet, or it is one packet longer
          have space := settled.room side
          simp only [same, true_imp_iff, if_true, SideCount.filled] at space ⊢
          by_cases isFull : (counts (pgFlipSide fromSide)).held + 1 = pgMaxPktsBurst
          · rw [isFull, Nat.mod_self]
            refine ⟨fun both _ => both.1 le_rfl, fun finds => ?_⟩
            exact ⟨fun _ => finds (by omega), fun _ => finds (by omega)⟩
          · rw [Nat.mod_eq_of_lt (by omega), Nat.add_assoc, Nat.add_comm 1]
            exact and_iff_right (fun tooMany => absurd tooMany (by omega))
        · simp [same]
      · split
        · simp only [SideCount.filled, Nat.mod_add_mod, length_cons, Nat.add_assoc, Nat.add_comm 1]
        · rfl

end

/-- What was received before and in some calls. -/
def receiveCalls (received : Side → List π) (calls : List (AccumulatorCall ι π)) : Side → List π :=
  fun side => received side ++ receivedFrom side calls

/-- Every call keeps track of the packets and the counts. -/
theorem Drained.exec (settled : Drained output pollMin received found counts events state)
    (call : AccumulatorCall ι π) :
    ∃ after, call.exec state = .ok after ∧ Drained output pollMin (receiveCalls received [call])
          (fun side => found side ∧ call.FindsNeighbour output pollMin side (counts side))
          (fun side => call.counted output pollMin side (counts side))
          (events ++ after.events) after.state := by
  cases call with
  | burst brick fromSide pkts pktsMask =>
    obtain ⟨after, ran, afterSettled⟩ :=
      settled.burstFrom brick fromSide ((lowBits pktsMask).map pkts)
    refine ⟨after, ran, ?_⟩
    have same : receiveCalls received [.burst brick fromSide pkts pktsMask] =
          receive received fromSide ((lowBits pktsMask).map pkts) := by
      funext side
      simp only [receiveCalls, receivedFrom, AccumulatorCall.received,
        flatMap_cons, flatMap_nil, append_nil, receive]
      by_cases isFrom : side = fromSide
      · rw [isFrom, update_self, if_pos rfl]
      · rw [update_of_ne isFrom, if_neg (Ne.symm isFrom), append_nil]
    rw [length_map] at afterSettled
    rw [same]
    exact afterSettled
  | poll brick =>
    refine ⟨_, rfl, ?_⟩
    have same : receiveCalls received [.poll brick] = received := by
      funext side
      exact append_nil _
    rw [same]
    exact settled.poll rfl

/--
Every run returns and keeps track of the packets; all events reach neighbours
and nothing is held at the end exactly if the calls flush all.
-/
theorem Drained.run (settled : Drained output pollMin received found counts events state)
    (calls : List (AccumulatorCall ι π)) :
    ∃ after reached left, accumulatorRun state calls = .ok after ∧
        Drained output pollMin (receiveCalls received calls) reached left
          (events ++ after.events) after.state ∧
        ∀ side, reached side ∧ (left side).held = 0 ↔
          found side ∧ FlushesAll output pollMin side (counts side) calls := by
  induction calls generalizing received found counts events state with
  | nil =>
    refine ⟨_, found, counts, rfl, ?_, fun side => Iff.rfl⟩
    have same : receiveCalls received ([] : List (AccumulatorCall ι π)) =
          received := by
      funext side
      exact append_nil _
    rw [same, append_nil]
    exact settled
  | cons call rest ih =>
    obtain ⟨first, isFirst, firstSettled⟩ := settled.exec call
    obtain ⟨later, reached, left, isLater, laterSettled, flushes⟩ := ih firstSettled
    refine ⟨{ later with events := first.events ++ later.events }, reached, left, ?_, ?_,
      fun side => (flushes side).trans and_assoc⟩
    · simp only [accumulatorRun, isFirst, isLater]
    · have same : receiveCalls (receiveCalls received [call]) rest =
            receiveCalls received (call :: rest) := by
        funext side
        simp [receiveCalls, receivedFrom]
      rw [same, append_assoc] at laterSettled
      exact laterSettled

end Calls

/-- A new accumulator holds nothing. -/
theorem accumulatorInit_settled (output : Option Side) (pollMin : BitVec 64) :
    Drained output (pollMin.toNat % 65536) (fun _ => []) (fun _ => True)
      (fun _ => { held := 0, polls := 0 }) ([] : List (AccumulatorEvent ι π))
      (accumulatorInit output pollMin) where
  output := rfl
  pollMin := rfl
  tracks :=
    { fifo := fun _ => rfl
      bound := fun _ => Nat.zero_le _
      agrees := fun _ member => absurd member not_mem_nil
      balance := .refl _
      reaches := fun _ => iff_of_true (fun _ member => absurd member not_mem_nil) trivial }
  counted := rfl
  room := fun _ => Nat.zero_lt_succ _

end Tracking

section Lossless

/--
An accumulator lost and duplicated nothing up to its destruction: what it sent
and holds on a side is what it received on the other, no vector is full, every
sending is one of packets it holds, and each reference it took was given back
once.
-/
structure LosslessFifo (calls : List (AccumulatorCall ι π)) (after : Accumulated ι π) : Prop where
  fifo : ∀ side, sentOn side after.events ++ (after.state.burstVec side).held =
    (receivedFrom (pgFlipSide side) calls).map some
  room : ∀ side, (after.state.burstVec side).len < pgMaxPktsBurst
  agrees : ∀ event ∈ after.events, event.Agrees
  released : (referencesReleased (after.events ++ accumulatorDecref after.state)).Perm
    (referencesTaken after.events)

/--
Every run of an accumulator returns; it ends without a lost or duplicated
packet and with all references given back exactly when the calls flush all
packets before the destruction of the brick, and always to a neighbour.
-/
theorem accumulator_lossless_iff (output : Option Side) (pollMin : BitVec 64)
    (calls : List (AccumulatorCall ι π)) :
    ∃ after, accumulatorRun (accumulatorInit output pollMin) calls = .ok after ∧
      (LosslessFifo calls after ↔
        ∀ side,
          FlushesAll output (pollMin.toNat % 65536) side { held := 0, polls := 0 } calls) := by
  obtain ⟨after, found, counts, ran, settled, flushes⟩ :=
    (accumulatorInit_settled output pollMin).run calls
  obtain rfl := settled.counted
  refine ⟨after, ran, ?_⟩
  have balance := settled.tracks.balance
  rw [nil_append] at balance
  have noneAtEnd : referencesReleased (after.events ++ accumulatorDecref after.state) =
        referencesReleased after.events := by
    rw [referencesReleased_append]
    exact append_nil _
  have lengths := balance.length_eq
  simp only [length_append, PgVec.held, length_map, length_range] at lengths
  have flushed (side : Side) : flushedOn side after.events ++ (after.state.burstVec side).held =
        (receivedFrom (pgFlipSide side) calls).map some :=
    settled.tracks.fifo side
  have flushesAll (side : Side) : (∀ event ∈ after.events, event.Reaches side) ∧
        (after.state.burstVec side).len = 0 ↔
          FlushesAll output (pollMin.toNat % 65536) side { held := 0, polls := 0 } calls := by
    rw [← true_and (FlushesAll _ _ _ _ _), ← flushes side, ← settled.tracks.reaches side]
    rfl
  constructor
  · intro lossless side
    refine (flushesAll side).mp ⟨?_, ?_⟩
    · rw [← (length_sentOn side after.events).2]
      have same := congrArg List.length ((lossless.fifo side).trans (flushed side).symm)
      simpa using same
    · have released := lossless.released.length_eq
      rw [noneAtEnd] at released
      cases side <;> omega
  · intro all
    have nothingHeld (side : Side) : (after.state.burstVec side).held = [] := by
      simp [PgVec.held, ((flushesAll side).mpr (all side)).2]
    refine ⟨fun side => ?_, settled.room, settled.tracks.agrees, ?_⟩
    · rw [← flushed side]
      congr 1
      exact flatMap_congr (fun event member =>
        (((flushesAll side).mpr (all side)).1 event member).sent_eq)
    · rw [noneAtEnd]
      rwa [nothingHeld, nothingHeld, append_nil, append_nil] at balance

/-- One packet that comes from the west. -/
def onePacket : List (AccumulatorCall Bool Nat) :=
  let config : BrickConfig :=
    { name := "accumulator"
      westMax := 1
      eastMax := 1
      type := .dipole }
  [.burst (blankBrick Bool config) .west id 1#64]

/-- A packet held when the accumulator is destroyed is never given back. -/
theorem destroyed_accumulator_leaks :
    ∃ after, accumulatorRun (accumulatorInit none 0#64) onePacket = .ok after ∧
        referencesTaken after.events = [some 0] ∧
        referencesReleased (after.events ++ accumulatorDecref after.state) = [] ∧
        ¬ LosslessFifo onePacket after := by
  have oneBit : lowBits 1#64 = [0] := by decide +kernel
  refine ⟨accumulatorPush (accumulatorInit none 0#64) .east 0, ?_, rfl, rfl, fun lossless => ?_⟩
  · simp [onePacket, accumulatorRun, AccumulatorCall.exec, accumulatorBurst,
      oneBit, accumulatorBurstFrom, accumulatorRound, accumulatorPush,
      accumulatorInit, pgFlipSide, pgMaxPktsBurst]
  · exact absurd lossless.released.length_eq (by decide)

end Lossless

end PacketGraph
