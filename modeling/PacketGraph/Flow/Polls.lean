import PacketGraph.Flow.Bricks

namespace PacketGraph

open BitScan List

/-!
# The polls that hand received packets over

The nic and vhost bricks receive packets from DPDK and a queue takes a burst
from its friend.  Each of them sends the packets to its neighbour and frees
them by mask.  A receive function gives one reference for each packet, and at
most as many packets as it was asked for.

The packets of a queued burst are those that stand in its array when the poll
reads it.
-/

variable {ι π μ : Type}

section Model

/-- What a receive function returned when asked for `limit` packets. -/
structure Received (limit : Nat) (μ : Type) where
  packets : List μ
  bounded : packets.length ≤ limit

/-- An array of packets after some were written from an index on. -/
def writeArray (array : Nat → Option μ) (start : Nat) (packets : List μ) : Nat → Option μ :=
  fun place => if start ≤ place ∧ place < start + packets.length then
      packets[place - start]?
    else
      array place

/-- The packets of an array under a mask. -/
def maskedPackets (array : Nat → Option μ) (mask : BitVec 64) : List μ :=
  (lowBits mask).filterMap array

/--
A poll: the packets it obtained, the value of `*pkts_cnt`, what it sent, and
the packets it freed.
-/
structure Polled (ι μ : Type) where
  obtained : List μ
  pktsCnt : Nat
  sent : Sent ι
  freed : List μ

/-- A poll that obtains nothing. -/
def Polled.idle : Polled ι μ where
  obtained := []
  pktsCnt := 0
  sent := { code := 0, sends := [] }
  freed := []

/-- `brick->side.edge.link`. -/
def monopoleLink (brick : Brick ι) : Option ι :=
  (brick.side.edges[0]?).bind (fun edge => edge.link)

/-- Burst the first packets of an array to the neighbour, then free them. -/
def forwardFirsts (brick : Brick ι) (array : Nat → Option μ) (count : Nat) (answers : Answers)
    : Sent ι × List μ :=
  let pktsMask := pgMaskFirsts count
  (burstOnce (edgeSend brick .west 0 brick.output pktsMask) answers, maskedPackets array pktsMask)

/-- `nic_poll_forward`. -/
def nicPollForward (brick : Brick ι) (pkts : Nat → Option μ) (nbPkts : Nat) (answers : Answers)
    : Sent ι × List μ :=
  match monopoleLink brick with
  | none => ({ code := 0, sends := [] }, [])
  | some _ => forwardFirsts brick pkts nbPkts answers

/-- `nic_poll`, on the array left by the last poll. -/
def nicPoll (brick : Brick ι) (pkts : Nat → Option μ) (received : Received pgMaxPktsBurst μ)
    (answers : Answers) : Polled ι μ :=
  match received.packets with
  | [] => .idle
  | packet :: rest =>
    let pkts := writeArray pkts 0 (packet :: rest)
    let forwarded := nicPollForward brick pkts (rest.length + 1) answers
    { obtained := packet :: rest
      pktsCnt := rest.length + 1
      sent := forwarded.1
      freed := forwarded.2 }

/-- `MAX_BURST` of the vhost brick. -/
def vhostMaxBurst : Nat :=
  32

/--
`vhost_poll`, on the array left by the last poll.  The lock is tried if
`checkAtomic` is set, and `unlocked` tells whether it is free.
-/
def vhostPoll (brick : Brick ι) (checkAtomic unlocked : Bool) (inPkts : Nat → Option μ)
    (first second : Received vhostMaxBurst μ) (answers : Answers) : Polled ι μ :=
  if checkAtomic ∧ ¬ unlocked then
    .idle
  else
    let inPkts := writeArray inPkts 0 first.packets
    let more :=
      if first.packets.length = vhostMaxBurst then second.packets else []
    let inPkts := writeArray inPkts vhostMaxBurst more
    let count := first.packets.length + more.length
    if count = 0 then
      .idle
    else
      let forwarded := forwardFirsts brick inPkts count answers
      { obtained := first.packets ++ more
        pktsCnt := count
        sent := forwarded.1
        freed := forwarded.2 }

/--
`queue_poll` with the packets it gets and frees; `memory` gives what stands in
the arrays of packets.
-/
def queuePolled (brick : Brick ι) (memory : π → Nat → μ) (friend : Option (QueueState ι π))
    (answers : Answers) : Polled ι μ :=
  match friend with
  | none => .idle
  | some other =>
    match other.rx with
    | [] => .idle
    | burst :: _ =>
      let polled := queuePoll brick friend answers
      { obtained := (lowBits burst.mask).map (memory burst.pkts)
        pktsCnt := polled.pktsCnt
        sent := polled.sent
        freed :=
          maskedPackets (fun place => some (memory burst.pkts place)) burst.mask }

/-- The poll of one of the three bricks, with what it is given. -/
inductive PollCall (ι π μ : Type) where
  | nic (pkts : Nat → Option μ) (received : Received pgMaxPktsBurst μ)
  | vhost (checkAtomic unlocked : Bool) (inPkts : Nat → Option μ)
      (first second : Received vhostMaxBurst μ)
  | queue (memory : π → Nat → μ) (friend : Option (QueueState ι π))

/-- Execute a poll of a brick. -/
def PollCall.exec (brick : Brick ι) (answers : Answers) :
    PollCall ι π μ → Polled ι μ
  | .nic pkts received => nicPoll brick pkts received answers
  | .vhost checkAtomic unlocked inPkts first second =>
    vhostPoll brick checkAtomic unlocked inPkts first second answers
  | .queue memory friend => queuePolled brick memory friend answers

end Model

section Arrays

variable {packets : List μ}

theorem filterMap_range_getElem? (packets : List μ) :
    (List.range packets.length).filterMap (fun place => packets[place]?) =
      packets := by
  induction packets with
  | nil => rfl
  | cons packet rest ih =>
    rw [length_cons, range_succ_eq_map, filterMap_cons]
    simpa [filterMap_map, Function.comp_def] using ih

variable (array : Nat → Option μ)

/-- Writing two lists in a row is writing their concatenation. -/
theorem writeArray_writeArray (more : List μ) {start : Nat} (behind : packets.length = start) :
    writeArray (writeArray array 0 packets) start more = writeArray array 0 (packets ++ more) := by
  subst behind
  funext place
  unfold writeArray
  simp only [length_append, Nat.zero_le, true_and, Nat.zero_add, Nat.sub_zero]
  by_cases below : place < packets.length
  · rw [if_neg (by omega), if_pos below, if_pos (by omega), getElem?_append_left below]
  · by_cases inside : place < packets.length + more.length
    · rw [if_pos (by omega), if_pos inside, getElem?_append_right (by omega)]
    · rw [if_neg (by omega), if_neg below, if_neg inside]

theorem writeArray_nil (start : Nat) : writeArray array start [] = array := by
  funext place
  unfold writeArray
  rw [length_nil, if_neg (by omega)]

/-- The mask of the packets just written names these packets. -/
theorem maskedPackets_writeArray (inBurst : packets.length ≤ pgMaxPktsBurst) :
    maskedPackets (writeArray array 0 packets) (pgMaskFirsts packets.length) =
      packets := by
  unfold maskedPackets
  rw [lowBits_pgMaskFirsts inBurst]
  refine Eq.trans (filterMap_congr (fun place member => ?_)) (filterMap_range_getElem? packets)
  have below := mem_range.mp member
  unfold writeArray
  rw [if_pos (by omega), Nat.sub_zero]

end Arrays

section Release

/-- Every packet was freed once, and as many were counted as obtained. -/
structure ReleasesAll (polled : Polled ι μ) : Prop where
  freed : polled.freed = polled.obtained
  counted : polled.pktsCnt = polled.obtained.length

theorem Polled.idle_releasesAll : ReleasesAll (Polled.idle : Polled ι μ) :=
  ⟨rfl, rfl⟩

variable (brick : Brick ι) (answers : Answers)

/-- A nic frees the packets it received unless it has no neighbour. -/
theorem nicPoll_releasesAll_iff (pkts : Nat → Option μ) (received : Received pgMaxPktsBurst μ) :
    ReleasesAll (nicPoll brick pkts received answers) ↔
      monopoleLink brick ≠ none ∨ received.packets = [] := by
  have bounded := received.bounded
  unfold nicPoll
  cases isPackets : received.packets with
  | nil =>
    simp only [or_true, iff_true]
    exact Polled.idle_releasesAll
  | cons packet rest =>
    rw [isPackets] at bounded
    dsimp only [nicPollForward]
    cases isLink : monopoleLink brick with
    | none =>
      simp only [ne_eq, not_true_eq_false, reduceCtorEq, or_self, iff_false]
      intro releases
      exact absurd releases.freed (by simp)
    | some neighbour =>
      simp only [ne_eq, reduceCtorEq, not_false_eq_true, true_or, iff_true]
      exact ⟨maskedPackets_writeArray pkts bounded, rfl⟩

/-- A vhost frees the packets it received, with a neighbour or without. -/
theorem vhostPoll_releasesAll (checkAtomic unlocked : Bool) (inPkts : Nat → Option μ)
    (first second : Received vhostMaxBurst μ) :
    ReleasesAll (vhostPoll brick checkAtomic unlocked inPkts first second answers) := by
  have firstBound := first.bounded
  have secondBound := second.bounded
  unfold vhostPoll
  split
  · exact Polled.idle_releasesAll
  · dsimp only
    generalize isMore : (if first.packets.length = vhostMaxBurst then second.packets
        else []) = more
    have whole : writeArray (writeArray inPkts 0 first.packets) vhostMaxBurst more =
          writeArray inPkts 0 (first.packets ++ more) := by
      by_cases isFull : first.packets.length = vhostMaxBurst
      · exact writeArray_writeArray inPkts more isFull
      · rw [if_neg isFull] at isMore
        rw [← isMore, writeArray_nil, append_nil]
    have inBurst : (first.packets ++ more).length ≤ pgMaxPktsBurst := by
      have moreBound : more.length ≤ vhostMaxBurst := by
        rw [← isMore]
        split
        · exact secondBound
        · exact Nat.zero_le _
      rw [length_append]
      unfold vhostMaxBurst at firstBound moreBound
      unfold pgMaxPktsBurst
      omega
    split
    · exact Polled.idle_releasesAll
    · refine ⟨?_, length_append.symm⟩
      dsimp only [forwardFirsts]
      rw [whole, ← length_append]
      exact maskedPackets_writeArray inPkts inBurst

/-- A queue frees the packets of the burst it took. -/
theorem queuePolled_releasesAll (memory : π → Nat → μ) (friend : Option (QueueState ι π)) :
    ReleasesAll (queuePolled brick memory friend answers) := by
  unfold queuePolled
  cases friend with
  | none => exact Polled.idle_releasesAll
  | some other =>
    cases waiting : other.rx with
    | nil => simpa [waiting] using Polled.idle_releasesAll
    | cons burst rest =>
      simp only [waiting]
      refine ⟨?_, ?_⟩
      · dsimp only [maskedPackets]
        exact congrFun filterMap_eq_map _
      · simp [queuePoll, waiting]

/-- Only a nic with packets needs a neighbour. -/
def PollCall.Served : PollCall ι π μ → Prop
  | .nic _ received => monopoleLink brick ≠ none ∨ received.packets = []
  | .vhost _ _ _ _ _ => True
  | .queue _ _ => True

/--
A poll frees each packet it obtained once and counts them, whatever the
neighbour answers, exactly when it is not a nic that received packets while it
has no neighbour.
-/
theorem polled_packets_released_iff (call : PollCall ι π μ) :
    ReleasesAll (call.exec brick answers) ↔ call.Served brick := by
  cases call with
  | nic pkts received => exact nicPoll_releasesAll_iff brick answers pkts received
  | vhost checkAtomic unlocked inPkts first second =>
    exact iff_of_true (vhostPoll_releasesAll brick answers checkAtomic unlocked inPkts first second)
      trivial
  | queue memory friend =>
    exact iff_of_true (queuePolled_releasesAll brick answers memory friend) trivial

/-- A nic that was never linked. -/
def looseNic : Brick Bool where
  type := .monopole
  name := "nic"
  refcount := 1
  released := 0
  output := .west
  west := { max := 1, nb := 0, edges := [.empty] }
  east := { max := 1, nb := 0, edges := [.empty] }

/-- An unlinked nic counts the packet it received and never frees it. -/
theorem unlinked_nic_leaks :
    ∃ received : Received pgMaxPktsBurst Nat,
      (nicPoll looseNic (fun _ => none) received (fun _ => 0)).obtained = [7] ∧
        (nicPoll looseNic (fun _ => none) received (fun _ => 0)).freed = [] ∧
        ¬ ReleasesAll (nicPoll looseNic (fun _ => none) received (fun _ => 0)) := by
  refine ⟨⟨[7], by decide⟩, rfl, rfl, fun releases => ?_⟩
  exact absurd releases.freed (by decide)

end Release

end PacketGraph
