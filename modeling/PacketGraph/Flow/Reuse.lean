import PacketGraph.Flow.Bricks
import PacketGraph.Lib.BufferReuse

namespace PacketGraph

open BitScan BufferReuse Bytes Function List TransitionSystem

/-!
# Bricks that use the same mbufs again

A tap and an rxtx brick fill the mbufs that they allocated once on every poll,
and a pmtud brick writes all its replies into one mbuf.  Their neighbour may be
a queue, which only takes references and is polled later.  The mbufs of a brick
are the buffers of an owner, and the queue and its friend the reader.

A burst through a pmtud brick that holds mbufs of other bricks is a loan of no
buffer of its own.
-/

section Tap

/-- What `read` returns on the file descriptor of a tap. -/
inductive TapRead where
  | data (bytes : List (BitVec 8))
  /-- As many bytes as were asked for. -/
  | truncated (bytes : List (BitVec 8))
  /-- `EAGAIN`. -/
  | again
  | failed
  deriving Repr, DecidableEq

/-- The packet with the bytes of a frame behind its data pointer. -/
def tapFill (packet : Mbuf) (bytes : List (BitVec 8)) : Mbuf :=
  { packet with buf := store packet.buf packet.dataOff bytes }

/-- The packet with its length and metadata set. -/
def tapTake (packet : Mbuf) (readSize : Nat) : Mbuf :=
  pgUtilsGuessL2 ((rtePktmbufAppend packet readSize).getD packet)

/--
The loop of `tap_poll`, with the number of packets it read unless it failed.
A tap from which all was read answers `EAGAIN`.
-/
def tapReads :
    List TapRead → Nat → (Nat → Mbuf) → List (Action Mbuf) × Option Nat
  | [], nbPkts, pkts =>
    if nbPkts < pgMaxPktsBurst then
      ([.write nbPkts (rtePktmbufReset (pkts nbPkts))], some nbPkts)
    else
      ([], some nbPkts)
  | read :: rest, nbPkts, pkts =>
    if nbPkts < pgMaxPktsBurst then
      let packet := rtePktmbufReset (pkts nbPkts)
      match read with
      | .again => ([.write nbPkts packet], some nbPkts)
      | .failed => ([.write nbPkts packet], none)
      | .truncated bytes =>
        let filled := tapFill packet bytes
        let later := tapReads rest nbPkts (update pkts nbPkts filled)
        (.write nbPkts packet :: .write nbPkts filled :: later.1, later.2)
      | .data bytes =>
        let filled := tapFill packet bytes
        let taken := tapTake filled bytes.length
        let later := tapReads rest (nbPkts + 1) (update pkts nbPkts taken)
        (.write nbPkts packet :: .write nbPkts filled :: .write nbPkts taken :: later.1, later.2)
    else
      ([], some nbPkts)

/-- What `tap_poll` does with its mbufs. -/
def tapPoll (linked : Bool) (reads : List TapRead) (pkts : Nat → Mbuf) : List (Action Mbuf) :=
  if ¬ linked then
    []
  else
    match tapReads reads 0 pkts with
    | (actions, some (nbPkts + 1)) => actions ++ [.send (lowBits (pgMaskFirsts (nbPkts + 1)))]
    | (actions, _) => actions

end Tap

section Rxtx

/-- What the `tx` callback of an rxtx brick leaves in the packets. -/
structure TxResult where
  pkts : Nat → Mbuf
  count : Nat
  bounded : count ≤ pgMaxPktsBurst

/-- What `rxtx_poll` does with its mbufs; the callback may write all of them. -/
def rxtxPoll (tx : Option ((Nat → Mbuf) → TxResult)) (pkts : Nat → Mbuf) : List (Action Mbuf) :=
  match tx with
  | none => []
  | some tx =>
    let blank := fun i => rtePktmbufReset (pkts i)
    let written := tx blank
    let resets := (List.range pgMaxPktsBurst).map (fun i => Action.write i (blank i))
    let fills := (List.range pgMaxPktsBurst).map (fun i => Action.write i (written.pkts i))
    if written.count = 0 then
      resets ++ fills
    else
      resets ++ fills ++ (List.range written.count).map
          (fun i => Action.write i (pgUtilsGuessL2 (written.pkts i))) ++
        [.send (lowBits (pgMaskFirsts written.count))]

end Rxtx

section Pmtud

/-- The replies of `pmtud_burst` to the packets that are too long. -/
def pmtudReplies (pkts : Nat → Mbuf) :
    List Nat → PmtudState → List (Action Mbuf)
  | [], _ => []
  | i :: rest, state =>
    if pmtudTooBig state (pkts i) then
      let icmp := pmtudReply state.icmp (pkts i)
      .write 0 icmp :: .send [0] :: pmtudReplies pkts rest { state with icmp := icmp }
    else
      pmtudReplies pkts rest state

/-- The contents that some actions write. -/
def contentsWritten : List (Action Mbuf) → List Mbuf
  | [] => []
  | .write _ content :: rest => content :: contentsWritten rest
  | .send _ :: rest => contentsWritten rest

variable {ι : Type}

/-- The replies are what `pmtud_burst` delivers to the side of the burst. -/
theorem contentsWritten_pmtudReplies {brick : Brick ι} {fromSide : Side} {send : Send ι}
    (linked : edgeSend brick fromSide 0 (pgFlipSide fromSide) 1#64 = some send)
    (pkts : Nat → Mbuf) (places : List Nat) (pktsMask : BitVec 64) {answers : Answers}
    (accepted : ∀ call, 0 ≤ answers call) (state : PmtudState) :
    contentsWritten (pmtudReplies pkts places state) =
      ((pmtudFrom brick fromSide pkts places pktsMask answers state).deliveries.filter
        (fun delivery => delivery.side = fromSide)).map
        (fun delivery => delivery.pkts 0) := by
  induction places generalizing pktsMask answers state with
  | nil =>
    -- what is left of the burst goes to the other side
    unfold pmtudReplies pmtudFrom
    split
    · rfl
    · cases isSend : edgeSend brick (pgFlipSide fromSide) 0 fromSide pktsMask with
      | none => rfl
      | some forward =>
        have otherSide : forward.side ≠ fromSide := by
          rw [(edgeSend_eq_some isSend).1]
          exact pgFlipSide_ne fromSide
        simp [burstOnce, contentsWritten, otherSide]
  | cons place rest ih =>
    unfold pmtudReplies pmtudFrom
    by_cases tooBig : pmtudTooBig state (pkts place) = true
    · have notNegative : ¬ answers 0 < 0 := Int.not_lt.mpr (accepted 0)
      have onSide := (edgeSend_eq_some linked).1
      simp only [tooBig, if_true, linked, notNegative, if_false,
        contentsWritten, onSide, decide_true, filter_cons_of_pos, map_cons]
      rw [@ih (pktsMask ^^^ 1#64 <<< place) (answers.after 1) (fun call => accepted (1 + call))]
    · simp only [tooBig, Bool.false_eq_true, if_false]
      exact ih pktsMask accepted state

end Pmtud

section Shapes

variable {actions more : List (Action Mbuf)}

/-- Only writes. -/
def OnlyWrites (actions : List (Action Mbuf)) : Prop :=
  ∀ action ∈ actions, ∃ place content, action = .write place content

theorem OnlyWrites.writesThenSends (only : OnlyWrites actions) : WritesThenSends actions := by
  induction actions with
  | nil => exact trivial
  | cons action rest ih =>
    obtain ⟨place, content, rfl⟩ := only action mem_cons_self
    exact ih (fun other member => only other (mem_cons_of_mem _ member))

theorem OnlyWrites.then_send (only : OnlyWrites actions) (places : List Nat) :
    WritesThenSends (actions ++ [.send places]) := by
  induction actions with
  | nil => rfl
  | cons action rest ih =>
    obtain ⟨place, content, rfl⟩ := only action mem_cons_self
    exact ih (fun other member => only other (mem_cons_of_mem _ member))

theorem onlyWrites_map (places : List Nat) (content : Nat → Mbuf) :
    OnlyWrites (places.map (fun i => Action.write i (content i))) := by
  intro action member
  obtain ⟨place, _, rfl⟩ := mem_map.mp member
  exact ⟨place, _, rfl⟩

theorem OnlyWrites.append (only : OnlyWrites actions) (also : OnlyWrites more) :
    OnlyWrites (actions ++ more) := by
  intro action member
  exact (mem_append.mp member).elim (only action) (also action)

theorem OnlyWrites.cons (place : Nat) (content : Mbuf) (only : OnlyWrites actions) :
    OnlyWrites (.write place content :: actions) := by
  intro action member
  rcases mem_cons.mp member with rfl | later
  · exact ⟨place, content, rfl⟩
  · exact only action later

theorem onlyWrites_nil : OnlyWrites [] :=
  fun _ member => absurd member not_mem_nil

/-- The loop of a tap poll only writes. -/
theorem tapReads_onlyWrites (reads : List TapRead) (nbPkts : Nat) (pkts : Nat → Mbuf) :
    OnlyWrites (tapReads reads nbPkts pkts).1 := by
  induction reads generalizing nbPkts pkts with
  | nil =>
    unfold tapReads
    split
    · exact onlyWrites_nil.cons _ _
    · exact onlyWrites_nil
  | cons read rest ih =>
    unfold tapReads
    split
    · cases read with
      | again | failed => exact onlyWrites_nil.cons _ _
      | truncated bytes => exact ((ih _ _).cons _ _).cons _ _
      | data bytes => exact (((ih _ _).cons _ _).cons _ _).cons _ _
    · exact onlyWrites_nil

theorem tapPoll_writesThenSends (linked : Bool) (reads : List TapRead) (pkts : Nat → Mbuf) :
    WritesThenSends (tapPoll linked reads pkts) := by
  have only := tapReads_onlyWrites reads 0 pkts
  unfold tapPoll
  split
  · exact trivial
  · split
    · rename_i actions nbPkts isReads
      rw [isReads] at only
      exact only.then_send _
    · rename_i actions count _ isReads
      rw [isReads] at only
      exact only.writesThenSends

theorem rxtxPoll_writesThenSends (tx : Option ((Nat → Mbuf) → TxResult)) (pkts : Nat → Mbuf) :
    WritesThenSends (rxtxPoll tx pkts) := by
  unfold rxtxPoll
  split
  · exact trivial
  · dsimp only
    have filled (first second : Nat → Mbuf) :=
      (onlyWrites_map (List.range pgMaxPktsBurst) first).append
        (onlyWrites_map (List.range pgMaxPktsBurst) second)
    split
    · exact (filled _ _).writesThenSends
    · exact ((filled _ _).append (onlyWrites_map _ _)).then_send _

variable {pkts : Nat → Mbuf}

theorem filter_tooBig_pos {place : Nat} {state : PmtudState}
    (tooBig : pmtudTooBig state (pkts place) = true) {rest : List Nat} :
    (place :: rest).filter (fun i => pmtudTooBig state (pkts i)) =
      place :: rest.filter (fun i => pmtudTooBig state (pkts i)) :=
  filter_cons_of_pos tooBig

theorem filter_tooBig_neg {place : Nat} {state : PmtudState}
    (small : ¬ pmtudTooBig state (pkts place) = true) {rest : List Nat} :
    (place :: rest).filter (fun i => pmtudTooBig state (pkts i)) =
      rest.filter (fun i => pmtudTooBig state (pkts i)) :=
  filter_cons_of_neg small

/-- Without a packet that is too long there is no reply. -/
theorem pmtudReplies_eq_nil {places : List Nat} {state : PmtudState}
    (noneTooBig : places.filter (fun i => pmtudTooBig state (pkts i)) = []) :
    pmtudReplies pkts places state = [] := by
  induction places with
  | nil => rfl
  | cons place rest ih =>
    have small : ¬ pmtudTooBig state (pkts place) = true := by
      intro tooBig
      rw [filter_tooBig_pos tooBig] at noneTooBig
      exact absurd noneTooBig (by simp)
    rw [filter_tooBig_neg small] at noneTooBig
    unfold pmtudReplies
    rw [if_neg small]
    exact ih noneTooBig

/-- One packet that is too long gets one reply. -/
theorem pmtudReplies_writesThenSends {places : List Nat} {state : PmtudState}
    (atMostOne : (places.filter (fun i => pmtudTooBig state (pkts i))).length ≤ 1) :
    WritesThenSends (pmtudReplies pkts places state) := by
  induction places with
  | nil => exact trivial
  | cons place rest ih =>
    unfold pmtudReplies
    by_cases tooBig : pmtudTooBig state (pkts place) = true
    · rw [filter_tooBig_pos tooBig, length_cons] at atMostOne
      rw [if_pos tooBig]
      refine pmtudReplies_eq_nil (eq_nil_of_length_eq_zero ?_)
      -- being too long does not depend on the last reply
      exact Nat.le_zero.mp (Nat.le_of_succ_le_succ atMostOne)
    · rw [filter_tooBig_neg tooBig] at atMostOne
      rw [if_neg tooBig]
      exact ih atMostOne

end Shapes

section Chains

/-- A brick with mbufs of its own. -/
inductive ReuseBrick where
  | tap
  | rxtx
  | pmtud (output : Side) (ethMtuSize : Nat)
  deriving Repr, DecidableEq

/-- A poll of such a brick or a burst to it. -/
inductive ReuseCall where
  | tapPoll (linked : Bool) (reads : List TapRead)
  | rxtxPoll (tx : Option ((Nat → Mbuf) → TxResult))
  | pmtudBurst (fromSide : Side) (pkts : Nat → Mbuf) (pktsMask : BitVec 64)

/-- What a call does with the mbufs of the brick and with the queue. -/
def ReuseBrick.program :
    ReuseBrick → ReuseCall → (Nat → Mbuf) → List (Action Mbuf)
  | .tap, .tapPoll linked reads, own => PacketGraph.tapPoll linked reads own
  | .rxtx, .rxtxPoll tx, own => PacketGraph.rxtxPoll tx own
  | .pmtud output ethMtuSize, .pmtudBurst fromSide pkts pktsMask, own =>
    if output = fromSide then
      pmtudReplies pkts (lowBits pktsMask)
        { output := output, ethMtuSize := ethMtuSize, icmp := own 0 }
    else
      -- forwarded to the queue, without an mbuf of the brick
      [.send []]
  | _, _, _ => []

/-- Does `queue_burst` throw the oldest burst away at this length? -/
def queueFull (rxMaxSize : BitVec 32) (length : Nat) : Bool :=
  decide (rxMaxSize.toInt ≤ (length : Int))

/-- The runs of a brick, the queue behind it and the poll of its friend. -/
def reuseSystem (brick : ReuseBrick) (rxMaxSize : BitVec 32) :
    System (State Mbuf) (Label ReuseCall) :=
  system (queueFull rxMaxSize) brick.program

/-- Is a packet of the burst answered with an ICMP message? -/
def tooBigPackets (ethMtuSize : Nat) (pkts : Nat → Mbuf) (pktsMask : BitVec 64) : List Nat :=
  (lowBits pktsMask).filter (fun i =>
      pmtudTooBig { output := .west, ethMtuSize := ethMtuSize, icmp := .zero } (pkts i))

/--
A linked tap and an rxtx brick with a callback are polled only when the queue
and its friend's poll hold none of their mbufs.  A pmtud brick gets at most one
packet that is too long in a burst, and only when its last reply is not held.
-/
def PolledWhenReturned (brick : ReuseBrick) (state : State Mbuf) :
    Label ReuseCall → Prop
  | .call call =>
    match brick, call with
    | .tap, .tapPoll linked _ => linked = true → state.Returned
    | .rxtx, .rxtxPoll tx => tx.isSome = true → state.Returned
    | .pmtud output ethMtuSize, .pmtudBurst fromSide pkts pktsMask =>
      output = fromSide →
      (tooBigPackets ethMtuSize pkts pktsMask).length ≤ 1 ∧
        (tooBigPackets ethMtuSize pkts pktsMask ≠ [] → state.Returned)
    | _, _ => True
  | _ => True

/-- Such calls write before they send, while none of the mbufs is held. -/
theorem PolledWhenReturned.careful
    {brick : ReuseBrick} {state : State Mbuf} {label : Label ReuseCall}
    (polled : PolledWhenReturned brick state label) : Careful brick.program state label := by
  cases label with
  | call call =>
    cases brick with
    | tap =>
      cases call with
      | tapPoll linked reads =>
        refine ⟨tapPoll_writesThenSends linked reads _, ?_⟩
        cases linked with
        | false => exact fun writes => absurd writes id
        | true => exact fun _ => polled rfl
      | rxtxPoll tx => exact ⟨trivial, fun writes => absurd writes id⟩
      | pmtudBurst fromSide pkts pktsMask => exact ⟨trivial, fun writes => absurd writes id⟩
    | rxtx =>
      cases call with
      | tapPoll linked reads => exact ⟨trivial, fun writes => absurd writes id⟩
      | rxtxPoll tx =>
        refine ⟨rxtxPoll_writesThenSends tx _, ?_⟩
        cases tx with
        | none => exact fun writes => absurd writes id
        | some tx => exact fun _ => polled rfl
      | pmtudBurst fromSide pkts pktsMask => exact ⟨trivial, fun writes => absurd writes id⟩
    | pmtud output ethMtuSize =>
      cases call with
      | tapPoll linked reads => exact ⟨trivial, fun writes => absurd writes id⟩
      | rxtxPoll tx => exact ⟨trivial, fun writes => absurd writes id⟩
      | pmtudBurst fromSide pkts pktsMask =>
        unfold Careful ReuseBrick.program
        dsimp only
        split
        · rename_i isOutput
          obtain ⟨atMostOne, returned⟩ := polled isOutput
          refine ⟨pmtudReplies_writesThenSends atMostOne,
            fun writes => returned (fun noneTooBig => ?_)⟩
          have noReply :=
            @pmtudReplies_eq_nil pkts (lowBits pktsMask)
              { output := output
                ethMtuSize := ethMtuSize
                icmp := state.contents 0 } noneTooBig
          rw [noReply] at writes
          exact writes
        · exact ⟨rfl, fun writes => absurd writes id⟩
  | act | take | pass | giveBack => exact trivial

/--
In every run in which these bricks are polled only when their mbufs were given
back, each packet passed on is as it was when it was sent, and no mbuf with
another holder is written.
-/
theorem held_packets_not_rewritten {brick : ReuseBrick} {rxMaxSize : BitVec 32} {state : State Mbuf}
    (reachable : ((reuseSystem brick rxMaxSize).guarded (PolledWhenReturned brick)).Reachable state)
    : Undisturbed state :=
  undisturbed_of_careful (reachable.weaken (fun _ _ polled => polled.careful))

/-- An mbuf with room for a short frame. -/
def roomyMbuf : Mbuf :=
  { Mbuf.zero with bufLen := 256 }

/-- A poll of a linked tap that reads one frame. -/
def tapFrame (bytes : List (BitVec 8)) : List (Label ReuseCall) :=
  [.call (.tapPoll true [.data bytes]), .act, .act, .act, .act, .act]

/-- Take some steps of a tap in front of a queue of ten bursts. -/
def tapRun (labels : List (Label ReuseCall)) : Option (State Mbuf) :=
  after (step (queueFull 10#32) ReuseBrick.tap.program) (start (fun _ => roomyMbuf)) labels

/-- The data of the packets passed on, when sent and when passed on. -/
def dataPassedOn (state : State Mbuf) : List (List (List (BitVec 8)) × List (List (BitVec 8))) :=
  state.passedOn.map (fun contents => (contents.1.map Mbuf.data, contents.2.map Mbuf.data))

/-- A tap that is polled again before the queue changes a queued packet. -/
theorem tap_rewrites_queued_packet :
    ∃ state,
      (reuseSystem .tap 10#32).Reachable state ∧ dataPassedOn state = [([[0xAA#8]], [[0xBB#8]])] ∧
        ¬ Undisturbed state := by
  let labels := tapFrame [0xAA#8] ++ tapFrame [0xBB#8] ++ [.take, .pass]
  have ran : (tapRun labels).map dataPassedOn = some [([[0xAA#8]], [[0xBB#8]])] := by decide +kernel
  obtain ⟨state, isState, passed⟩ := Option.map_eq_some_iff.mp ran
  have started : (reuseSystem .tap 10#32).Reachable (start (fun _ => roomyMbuf)) :=
    .initial ⟨_, rfl⟩
  refine ⟨state, started.after isState, passed, fun undisturbed => ?_⟩
  have same : ∀ pair ∈ dataPassedOn state, pair.1 = pair.2 := by
    intro pair member
    obtain ⟨contents, isPassed, rfl⟩ := mem_map.mp member
    rw [undisturbed.same contents isPassed]
  rw [passed] at same
  exact absurd (same _ mem_cons_self) (by decide)

instance (state : State Mbuf) : Decidable state.Returned :=
  inferInstanceAs (Decidable (∀ loan ∈ state.loans, loan.places = []))

instance (state : State Mbuf) (label : Label ReuseCall) :
    Decidable (PolledWhenReturned .tap state label) := by
  cases label with
  | call call =>
    cases call with
    | tapPoll linked reads =>
      exact inferInstanceAs (Decidable (linked = true → state.Returned))
    | rxtxPoll | pmtudBurst => exact .isTrue trivial
  | act | take | pass | giveBack => exact .isTrue trivial

/-- Two frames, the second read when the first was passed on and given back. -/
def framesInTurn : List (Label ReuseCall) :=
  tapFrame [0xAA#8] ++ [.take, .pass, .giveBack] ++ tapFrame [0xBB#8] ++ [.take, .pass]

/-- Frames passed on and given back before the next poll of the tap are unchanged. -/
theorem held_packets_not_rewritten_tap :
    ∃ state, ((reuseSystem .tap 10#32).guarded (PolledWhenReturned .tap)).Reachable state ∧
        dataPassedOn state = [([[0xAA#8]], [[0xAA#8]]), ([[0xBB#8]], [[0xBB#8]])] ∧
        Undisturbed state := by
  have ran : ((afterUnder (step (queueFull 10#32) ReuseBrick.tap.program)
        (PolledWhenReturned .tap) (start (fun _ => roomyMbuf)) framesInTurn).map dataPassedOn) =
      some [([[0xAA#8]], [[0xAA#8]]), ([[0xBB#8]], [[0xBB#8]])] := by
    decide +kernel
  obtain ⟨state, isState, passed⟩ := Option.map_eq_some_iff.mp ran
  have started : ((reuseSystem .tap 10#32).guarded
        (PolledWhenReturned .tap)).Reachable (start (fun _ => roomyMbuf)) :=
    .initial ⟨_, rfl⟩
  have reachable := started.afterUnder isState
  exact ⟨state, reachable, passed, held_packets_not_rewritten reachable⟩

end Chains

end PacketGraph
