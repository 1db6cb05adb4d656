import PacketGraph.Switch.Burst
import PacketGraph.Vtep.Sends
import PacketGraph.Brick.LinkRuns

namespace PacketGraph

open Effects List TransitionSystem

/-!
# Senders and receivers agree on the edge of a burst

A brick that hands a burst to a neighbour names an edge of the neighbour.  It
is an edge that links back to the sender for all bursts that take the index
from the link they go through.  A vtep that decapsulates hands over the index
of its own port instead.
-/

variable {ι σ : Type}

/-- The edge that the neighbour is told of links back to the sender. -/
def Designates (bricks : ι → Brick ι) (sender : ι) (send : Send ι) : Prop :=
  ∃ edge, pgBrickGetEdge (bricks send.target) send.fromSide send.edgeIndex = some edge ∧
      edge.link = some sender

/-- The burst names the far end of the link it goes through. -/
def ThroughLink (brick : Brick ι) (send : Send ι) : Prop :=
  brick.linkAt (pgFlipSide send.fromSide) send.index = some (send.target, send.edgeIndex)

/-- The burst goes through a link but names the index of its near end. -/
def ThroughPort (brick : Brick ι) (send : Send ι) : Prop :=
  send.edgeIndex = send.index ∧ ∃ pairIndex, brick.linkAt (pgFlipSide send.fromSide) send.index =
        some (send.target, pairIndex)

/-- The bricks whose bursts are considered. -/
inductive Forwarder where
  | nop
  | hub
  | switch
  | udpFilter
  | antispoof
  | pmtud
  | queue
  | vtep (version : IpVersion) (output : Side)
  deriving Repr, DecidableEq

/-- The brick type that a brick is made with. -/
def Forwarder.type : Forwarder → BrickType
  | .nop => .dipole
  | .hub => .multipole
  | .switch => .multipole
  | .udpFilter => .multipole
  | .antispoof => .dipole
  | .pmtud => .dipole
  | .queue => .monopole
  | .vtep _ _ => .multipole

/-- Is a burst one of decapsulated packets? -/
def Forwarder.Decapsulates (kind : Forwarder) (send : Send ι) : Prop :=
  match kind with
  | .vtep _ output => send.fromSide = output
  | _ => False

/--
A brick sends a burst to a neighbour, from any private state, on any burst it
is handed itself and for any answers of its neighbours.
-/
inductive SentBy (brick : Brick ι) : Forwarder → Send ι → Prop where
  | nop {fromSide : Side} {pktsMask : BitVec 64} {answers : Answers} {send : Send ι}
      (sent : send ∈ (nopBurst brick fromSide pktsMask answers).sends) : SentBy brick .nop send
  | hub {fromSide : Side} {edgeIndex : Nat} {pktsMask : BitVec 64}
      {answers : Answers} {send : Send ι} (sent :
        send ∈ (hubBurst brick fromSide edgeIndex pktsMask answers).sends) : SentBy brick .hub send
  | hubOneSide {fromSide : Side} {pktsMask : BitVec 64} {answers : Answers} {send : Send ι}
      (sent : send ∈ (hubBurstOneSide brick fromSide pktsMask answers).sends) :
      SentBy brick .hub send
  | switch {fromSide : Side} {edgeIndex : Nat} {pkts : Nat → Frame}
      {pktsMask : BitVec 64} {neighbours : Neighbours} {rounds : Nat}
      {malloc : Malloc} {state after : SwitchState} {code : Int}
      {error : Option PgError} {sends : List (Send ι)} {send : Send ι} (returned :
        switchBurst brick fromSide edgeIndex pkts pktsMask neighbours rounds malloc state =
          .returned code error sends after) (sent : send ∈ sends) : SentBy brick .switch send
  | udpFilter {state : UdpFilterState} {fromSide : Side} {pkts : Nat → Mbuf}
      {pktsMask : BitVec 64} {answers : Answers} {send : Send ι} (sent : send ∈
          (udpFilterBurst brick state fromSide pkts pktsMask answers).sends) :
      SentBy brick .udpFilter send
  | antispoof {state : AntispoofState} {fromSide : Side} {pkts : Nat → Mbuf}
      {pktsMask : BitVec 64} {answers : Answers} {send : Send ι} (sent : send ∈
          (antispoofBurst brick state fromSide pkts pktsMask answers).sends) :
      SentBy brick .antispoof send
  | pmtud {state : PmtudState} {fromSide : Side} {pkts : Nat → Mbuf}
      {pktsMask : BitVec 64} {answers : Answers} {delivery : Delivery ι} (sent : delivery ∈
          (pmtudBurst brick state fromSide pkts pktsMask answers).deliveries) :
      SentBy brick .pmtud delivery.toSend
  | queue {π : Type} {friend : Option (QueueState ι π)} {answers : Answers} {send : Send ι}
      (sent : send ∈ (queuePoll brick friend answers).sent.sends) : SentBy brick .queue send
  | vtep {version : IpVersion} {fromSide : Side} {edgeIndex : Nat}
      {pktsMask : BitVec 64} {world : VtepWorld ι version} {delivery : Delivery ι}
      (noCalls : world.deliveries = []) (sent : delivery ∈ (finalState
            (vtepBurst brick fromSide edgeIndex pktsMask world)).deliveries) :
      SentBy brick (.vtep version world.state.output) delivery.toSend

section Sends

variable {brick : Brick ι}

variable {fromSide : Side} {pktsMask : BitVec 64} {send : Send ι} {side : Side}

/-- A burst on an edge goes through the link of the edge. -/
theorem edgeSend_throughLink {index : Nat} (named : brick.Names (pgFlipSide fromSide) index)
    (stored : pgBrickGetEdge brick (pgFlipSide fromSide) index = (brick.sides side).edges[index]?)
    (isSend : edgeSend brick side index fromSide pktsMask = some send) :
    send.fromSide = fromSide ∧ ThroughLink brick send := by
  unfold edgeSend at isSend
  split at isSend
  · rename_i link pairIndex isEdge
    simp only [Option.some.injEq] at isSend
    subst isSend
    exact ⟨rfl, linkAt_eq_some_iff.mpr ⟨named, by rw [stored, isEdge]⟩⟩
  · exact absurd isSend (by simp)

/-- A multipole sends on the side opposite to `fromSide`. -/
theorem edgeSend_throughLink_of_multipole (multipole : brick.type = .multipole)
    {index : Nat} (opposite : pgFlipSide fromSide = side)
    (isSend : edgeSend brick side index fromSide pktsMask = some send) :
    send.fromSide = fromSide ∧ ThroughLink brick send := by
  refine edgeSend_throughLink ⟨Or.inl multipole, ?_⟩ ?_ isSend
  · intro monopole
    rw [multipole] at monopole
    exact absurd monopole (by simp)
  · simp only [pgBrickGetEdge, multipole, opposite]

/-- A dipole sends on the only edge of the side opposite to `fromSide`. -/
theorem edgeSend_throughLink_of_dipole (dipole : brick.type = .dipole)
    (opposite : pgFlipSide fromSide = side)
    (isSend : edgeSend brick side 0 fromSide pktsMask = some send) :
    send.fromSide = fromSide ∧ ThroughLink brick send := by
  refine edgeSend_throughLink ⟨Or.inr rfl, ?_⟩ ?_ isSend
  · intro monopole
    rw [dipole] at monopole
    exact absurd monopole (by simp)
  · simp only [pgBrickGetEdge, dipole, opposite]

/-- A monopole sends on its only edge, away from its output. -/
theorem edgeSend_throughLink_of_monopole (monopole : brick.type = .monopole)
    (isSend : edgeSend brick .west 0 brick.output pktsMask = some send) :
    ThroughLink brick send := by
  refine (edgeSend_throughLink ⟨Or.inr rfl, fun _ => rfl⟩ ?_ isSend).2
  simp only [pgBrickGetEdge, monopole]
  rfl

variable {answers : Answers}

/-- Forwarding on a side of a multipole goes through its links. -/
theorem burstEach_throughLink (multipole : brick.type = .multipole) {failed : Int → Int}
    {calls : List (Option (Send ι))}
    (onEdges : ∀ call ∈ calls, ∀ sent, call = some sent → ∃ fromSide index pktsMask, edgeSend brick
        (pgFlipSide fromSide) index fromSide pktsMask = some sent)
    (sent : send ∈ (burstEach failed calls answers).sends) : ThroughLink brick send := by
  obtain ⟨fromSide, index, pktsMask, isSend⟩ :=
    onEdges (some send) (mem_of_mem_burstEach sent) send rfl
  exact (edgeSend_throughLink_of_multipole multipole rfl isSend).2

/-- A hub calls on edges of the side it is given. -/
theorem edgeSend_of_mem_hubSide {skipped : Option Nat} {call : Option (Send ι)}
    (member : call ∈ hubSide brick side skipped pktsMask) (send : Send ι)
    (isCall : call = some send) :
    ∃ fromSide index pktsMask, edgeSend brick (pgFlipSide fromSide) index fromSide pktsMask =
        some send := by
  obtain ⟨index, _, rfl⟩ := mem_map.mp member
  split at isCall
  · exact absurd isCall (by simp)
  · refine ⟨pgFlipSide side, index, pktsMask, ?_⟩
    rw [pgFlipSide_pgFlipSide]
    exact isCall

/-- `pg_brick_side_forward` goes through the links of its side. -/
theorem pgBrickSideForward_throughLink (multipole : brick.type = .multipole)
    (sent : send ∈ (pgBrickSideForward brick (pgFlipSide fromSide) fromSide pktsMask answers).sends)
    : ThroughLink brick send := by
  refine burstEach_throughLink multipole ?_ sent
  intro call member isSent isCall
  obtain ⟨index, _, rfl⟩ := mem_map.mp member
  exact ⟨fromSide, index, pktsMask, isCall⟩

theorem hubBurst_throughLink (multipole : brick.type = .multipole) {edgeIndex : Nat}
    (sent : send ∈ (hubBurst brick fromSide edgeIndex pktsMask answers).sends) :
    ThroughLink brick send := by
  refine burstEach_throughLink multipole ?_ sent
  intro call member
  rcases mem_append.mp member with first | second
  · exact edgeSend_of_mem_hubSide first
  · exact edgeSend_of_mem_hubSide second

variable {pkts : Nat → Mbuf}

theorem udpFilterBurst_throughLink (multipole : brick.type = .multipole) {state : UdpFilterState}
    (sent : send ∈ (udpFilterBurst brick state fromSide pkts pktsMask answers).sends) :
    ThroughLink brick send := by
  unfold udpFilterBurst at sent
  split at sent
  · exact pgBrickSideForward_throughLink multipole sent
  · refine burstEach_throughLink multipole ?_ sent
    intro call member isSent isCall
    obtain ⟨index, _, rfl⟩ := mem_map.mp member
    exact ⟨fromSide, index, _, isCall⟩

theorem nopBurst_throughLink (dipole : brick.type = .dipole)
    (sent : send ∈ (nopBurst brick fromSide pktsMask answers).sends) : ThroughLink brick send :=
  (edgeSend_throughLink_of_dipole dipole rfl (eq_of_mem_burstOnce sent)).2

theorem antispoofBurst_throughLink (dipole : brick.type = .dipole) {state : AntispoofState}
    (sent : send ∈ (antispoofBurst brick state fromSide pkts pktsMask answers).sends) :
    ThroughLink brick send := by
  unfold antispoofBurst at sent
  dsimp only at sent
  split at sent
  · exact nopBurst_throughLink dipole sent
  · split at sent
    · exact absurd sent not_mem_nil
    · exact nopBurst_throughLink dipole sent

variable {delivery : Delivery ι}

/-- Both the packets passed on and the replies go through links. -/
theorem pmtudFrom_throughLink (dipole : brick.type = .dipole)
    (places : List Nat) (pktsMask : BitVec 64) (answers : Answers) (state : PmtudState)
    (sent : delivery ∈ (pmtudFrom brick fromSide pkts places pktsMask answers state).deliveries) :
    ThroughLink brick delivery.toSend := by
  induction places generalizing pktsMask answers state with
  | nil =>
    unfold pmtudFrom at sent
    split at sent
    · exact absurd sent not_mem_nil
    · obtain ⟨send, isSent, rfl⟩ := mem_map.mp sent
      exact nopBurst_throughLink dipole isSent
  | cons i rest ih =>
    unfold pmtudFrom at sent
    split at sent
    · dsimp only at sent
      split at sent
      · exact ih _ _ _ sent
      · rename_i reply isReply
        have throughLink :=
          (edgeSend_throughLink_of_dipole dipole (pgFlipSide_pgFlipSide fromSide) isReply).2
        split at sent
        · rw [mem_singleton.mp sent]
          exact throughLink
        · rcases mem_cons.mp sent with same | later
          · rw [same]
            exact throughLink
          · exact ih _ _ _ later
    · exact ih _ _ _ sent

theorem pmtudBurst_throughLink (dipole : brick.type = .dipole) {state : PmtudState}
    (sent : delivery ∈ (pmtudBurst brick state fromSide pkts pktsMask answers).deliveries) :
    ThroughLink brick delivery.toSend := by
  unfold pmtudBurst at sent
  split at sent
  · exact pmtudFrom_throughLink dipole _ _ _ _ sent
  · exact pmtudFrom_throughLink dipole _ _ _ _ sent

theorem queuePoll_throughLink {π : Type} (monopole : brick.type = .monopole)
    {friend : Option (QueueState ι π)} (sent : send ∈ (queuePoll brick friend answers).sent.sends) :
    ThroughLink brick send := by
  unfold queuePoll at sent
  split at sent
  · exact absurd sent not_mem_nil
  · split at sent
    · exact absurd sent not_mem_nil
    · exact edgeSend_throughLink_of_monopole monopole (eq_of_mem_burstOnce sent)

/-- A vtep names its own port inwards, and the far end of a link outwards. -/
theorem vtepBurst_through {version : IpVersion} (multipole : brick.type = .multipole)
    {edgeIndex : Nat} {world : VtepWorld ι version} (noCalls : world.deliveries = [])
    (sent : delivery ∈ (finalState (vtepBurst brick fromSide edgeIndex pktsMask world)).deliveries)
    :
    (delivery.fromSide = world.state.output ∧ ThroughPort brick delivery.toSend) ∨
      (delivery.fromSide ≠ world.state.output ∧ ThroughLink brick delivery.toSend) := by
  have each : Delivers (fun delivery =>
          (delivery.fromSide = world.state.output ∧ ThroughPort brick delivery.toSend) ∨
            (delivery.fromSide ≠ world.state.output ∧ ThroughLink brick delivery.toSend))
        (finalState (vtepBurst brick fromSide edgeIndex pktsMask world)) := by
    refine vtepBurst_delivers ?_ ?_ noCalls edgeIndex
    · intro inward i pkts mask delivery isCall
      obtain ⟨send, isSend, rfl⟩ := Option.map_eq_some_iff.mp isCall
      obtain ⟨sameFrom, through⟩ := edgeSend_throughLink_of_multipole multipole rfl isSend
      have sameIndex : send.index = i := by
        unfold edgeSend at isSend
        split at isSend
        · simp only [Option.some.injEq] at isSend
          rw [← isSend]
        · exact absurd isSend (by simp)
      exact Or.inl ⟨sameFrom.trans inward, sameIndex.symm, send.edgeIndex, through⟩
    · intro outward index pkts send isSend
      obtain ⟨sameFrom, through⟩ := edgeSend_throughLink_of_multipole multipole rfl isSend
      exact Or.inr ⟨fun same => outward (sameFrom.symm.trans same), through⟩
  exact each delivery sent

/-- What a burst of any of the bricks names. -/
theorem SentBy.through {kind : Forwarder} (typed : brick.type = kind.type)
    (sent : SentBy brick kind send) :
    (kind.Decapsulates send ∧ ThroughPort brick send) ∨
      (¬ kind.Decapsulates send ∧ ThroughLink brick send) := by
  cases sent with
  | nop sent => exact Or.inr ⟨id, nopBurst_throughLink typed sent⟩
  | hub sent => exact Or.inr ⟨id, hubBurst_throughLink typed sent⟩
  | hubOneSide sent =>
    exact Or.inr ⟨id, burstEach_throughLink typed
      (fun _ member => edgeSend_of_mem_hubSide member) sent⟩
  | switch returned sent =>
    obtain ⟨linked, opposite⟩ := switchBurst_sends typed returned sent
    refine Or.inr ⟨id, ?_⟩
    unfold ThroughLink
    rw [opposite, pgFlipSide_pgFlipSide]
    exact linked
  | udpFilter sent => exact Or.inr ⟨id, udpFilterBurst_throughLink typed sent⟩
  | antispoof sent => exact Or.inr ⟨id, antispoofBurst_throughLink typed sent⟩
  | pmtud sent => exact Or.inr ⟨id, pmtudBurst_throughLink typed sent⟩
  | queue sent => exact Or.inr ⟨id, queuePoll_throughLink typed sent⟩
  | vtep noCalls sent => exact vtepBurst_through typed noCalls sent

/-- Bricks other than multipoles have one edge a side, whatever its index. -/
theorem pgBrickGetEdge_of_not_multipole (single : brick.type ≠ .multipole) (side : Side)
    (index other : Nat) : pgBrickGetEdge brick side index = pgBrickGetEdge brick side other := by
  unfold pgBrickGetEdge
  cases kind : brick.type with
  | multipole => exact absurd kind single
  | monopole | dipole => rfl

end Sends

section Graph

variable [DecidableEq ι] [Fintype ι] {bricks : ι → Brick ι} {sender : ι} {send : Send ι}

/-- The far end of the link a burst goes through links back. -/
theorem designates_of_throughLink (invariant : LinkInvariant bricks)
    (through : ThroughLink (bricks sender) send) : Designates bricks sender send := by
  obtain ⟨_, read⟩ := linkAt_eq_some_iff.mp (invariant.back through)
  rw [pgFlipSide_pgFlipSide] at read
  exact ⟨_, read, rfl⟩

/--
The index of the near end of a link designates an edge of a multipole behind
it only if that edge is the far end of a link of the same side.
-/
theorem designates_iff_of_throughPort (invariant : LinkInvariant bricks)
    (through : ThroughPort (bricks sender) send) :
    Designates bricks sender send ↔ ((bricks send.target).type = .multipole → ∃ port,
          (bricks sender).linkAt (pgFlipSide send.fromSide) port =
            some (send.target, send.index)) := by
  obtain ⟨sameIndex, pairIndex, linked⟩ := through
  have back := invariant.back linked
  rw [pgFlipSide_pgFlipSide] at back
  unfold Designates
  rw [sameIndex]
  constructor
  · rintro ⟨⟨_, port⟩, read, rfl⟩ multipole
    have named : (bricks send.target).Names send.fromSide send.index :=
      ⟨Or.inl multipole, fun monopole => by simp [multipole] at monopole⟩
    exact ⟨port, invariant.back (linkAt_eq_some_iff.mpr ⟨named, read⟩)⟩
  · intro paired
    by_cases multipole : (bricks send.target).type = .multipole
    · obtain ⟨port, toSlot⟩ := paired multipole
      obtain ⟨_, read⟩ := linkAt_eq_some_iff.mp (invariant.back toSlot)
      rw [pgFlipSide_pgFlipSide] at read
      exact ⟨_, read, rfl⟩
    · obtain ⟨_, read⟩ := linkAt_eq_some_iff.mp back
      rw [pgBrickGetEdge_of_not_multipole multipole _ _ pairIndex]
      exact ⟨_, read, rfl⟩

/--
In every reachable link graph, the edge that a burst names links back to its
sender unless a vtep decapsulates towards a multipole, none of whose links
with the inner side of the vtep ends in the slot numbered like the port.
-/
theorem send_designates_iff {ops : BrickOps ι σ} {graph : Graph ι σ}
    (reachable : (linkSystem ops).Reachable (.ok graph))
    {sender : ι} {kind : Forwarder} {send : Send ι} (typed : (graph.brick sender).type = kind.type)
    (sent : SentBy (graph.brick sender) kind send) :
    Designates graph.brick sender send ↔ (kind.Decapsulates send →
        (graph.brick send.target).type = .multipole →
        ∃ port, (graph.brick sender).linkAt (pgFlipSide send.fromSide) port =
            some (send.target, send.index)) := by
  obtain ⟨same, isGraph, invariant⟩ := linkSystem_invariant reachable
  cases isGraph
  rcases sent.through typed with ⟨inward, through⟩ | ⟨outward, through⟩
  · rw [designates_iff_of_throughPort invariant through]
    exact ⟨fun paired _ => paired, fun paired => paired inward⟩
  · exact iff_of_true (designates_of_throughLink invariant through)
      (fun inward => absurd inward outward)

end Graph

local instance forkThree : NeZero 3 := ⟨by decide⟩

/-- The bricks of a small program: a vtep, a hub and a tap on the hub. -/
def forkConfig : Fin 3 → BrickConfig
  | 0 => { name := "vtep", westMax := 1, eastMax := 2, type := .multipole }
  | 1 => { name := "hub", westMax := 2, eastMax := 1, type := .multipole }
  | 2 => { name := "nop", westMax := 1, eastMax := 1, type := .dipole }

/-- The small program before any call. -/
def forkStart : Graph (Fin 3) Unit where
  brick := fun which => { blankBrick (Fin 3) (forkConfig which) with
      west :=
        { max := (forkConfig which).westMax
          nb := 0
          edges :=
            freshEdges (Fin 3) (forkConfig which).type (forkConfig which).westMax }
      east :=
        { max := (forkConfig which).eastMax
          nb := 0
          edges :=
            freshEdges (Fin 3) (forkConfig which).type (forkConfig which).eastMax } }
  priv := fun _ => ()

/-- First the tap, then the vtep is linked to the west of the hub. -/
def forkGraph : Graph (Fin 3) Unit :=
  (forkStart.after (quietOps (Fin 3)) (.link (some 2) (some 1))).after
    (quietOps (Fin 3)) (.link (some 0) (some 1))

theorem forkGraph_reachable : (linkSystem (quietOps (Fin 3))).Reachable (.ok forkGraph) := by
  have started : (linkSystem (quietOps (Fin 3))).Reachable (.ok forkStart) := by
    refine .initial ⟨forkStart, rfl, fun which => ?_⟩
    refine ⟨[{ name := "brick", stateSize := 1, init := fun _ _ => .ok () }],
        some "brick", some (forkConfig which), ?_⟩
    match which with
    | 0 | 1 | 2 => rfl
  have tapped : (linkSystem (quietOps (Fin 3))).Reachable
        (.ok (forkStart.after (quietOps (Fin 3)) (.link (some 2) (some 1)))) :=
    .step (.link (some 2) (some 1)) started ⟨forkStart, rfl, rfl⟩
  exact .step (.link (some 0) (some 1)) tapped ⟨_, rfl, rfl⟩

/-- What the tap sends to the hub. -/
def tapSend : Send (Fin 3) where
  side := .east
  index := 0
  target := 1
  fromSide := .west
  edgeIndex := 0
  mask := 1#64

/-- The burst of the tap names the edge that links the hub to it. -/
theorem send_designates_iff_tap :
    (linkSystem (quietOps (Fin 3))).Reachable (.ok forkGraph) ∧
      SentBy (forkGraph.brick 2) .nop tapSend ∧
      Designates forkGraph.brick 2 tapSend := by
  have sent : SentBy (forkGraph.brick 2) .nop tapSend := by
    have member : tapSend ∈ (nopBurst (forkGraph.brick 2) .west 1#64 (fun _ => 0)).sends := by
      decide
    exact .nop member
  exact ⟨forkGraph_reachable, sent, (send_designates_iff forkGraph_reachable rfl sent).mpr
      (fun decapsulates => absurd decapsulates id)⟩

/-- A neighbourhood in which packets cannot be allocated, and nothing fails. -/
def forkWorld (state : VtepState .v4) (pkts : Nat → Mbuf) : VtepWorld (Fin 3) .v4 where
  state := state
  pkts := pkts
  tmp := Mbuf.zero
  errp := none
  malloc := fun _ => true
  clones := fun _ => some 0#64
  allocs := fun _ => none
  answers := fun _ => 0
  errors := fun _ => none
  back := fun _ _ => false
  deliveries := []
  refs := PktRef.left
  made := 0
  freed := []
  used := []

/-- A multicast group. -/
def forkGroup : Ip .v4 :=
  0xE0#32

/-- The vtep after VNI 1 was attached to the port of the hub. -/
def forkVtep : VtepState .v4 :=
  (finalState (pgVtepAddVni (forkGraph.brick 0) (some 1) 1#32 forkGroup
      (forkWorld (vtepInit .west 0#32 0#48 0#16 pgVtepAllOpti) (fun _ => Mbuf.zero)))).state

/-- A VXLAN packet for VNI 1. -/
def forkPacket : Mbuf :=
  { Mbuf.zero with
    buf := fun address => if address = 23 then 17#8
      else if address = 42 then 8#8
      else if address = 48 then 1#8
      else 0#8
    dataLen := 64
    pktLen := 64
    l2Len := 14 }

/-- What the vtep sends to the hub: the hub is told of the edge of the tap. -/
def vtepSend : Send (Fin 3) where
  side := .east
  index := 0
  target := 1
  fromSide := .west
  edgeIndex := 0
  mask := 1#64

theorem forkVtep_sends :
    ((finalState (vtepBurst (forkGraph.brick 0) .west 0 1#64
        (forkWorld forkVtep (fun _ => forkPacket)))).deliveries.map
      Delivery.toSend) = [vtepSend] := by
  decide +kernel

/-- A decapsulated burst names the edge of the tap, not that of the vtep. -/
theorem decapsulated_send_misses_edge :
    ∃ graph send, (linkSystem (quietOps (Fin 3))).Reachable (.ok graph) ∧
        SentBy (graph.brick 0) (.vtep .v4 .west) send ∧
        ¬ Designates graph.brick 0 send := by
  refine ⟨forkGraph, vtepSend, forkGraph_reachable, ?_, ?_⟩
  · have member : vtepSend ∈ (finalState (vtepBurst (forkGraph.brick 0) .west 0 1#64
              (forkWorld forkVtep (fun _ => forkPacket)))).deliveries.map
            Delivery.toSend := by
      rw [forkVtep_sends]
      exact mem_singleton_self _
    obtain ⟨delivery, sent, isSend⟩ := mem_map.mp member
    have sentByVtep := SentBy.vtep rfl sent
    have isWest : (forkWorld forkVtep (fun _ => forkPacket)).state.output = .west := by
      decide +kernel
    rw [isWest, isSend] at sentByVtep
    exact sentByVtep
  · rintro ⟨edge, read, back⟩
    have isTap : pgBrickGetEdge (forkGraph.brick 1) .west 0 = some ⟨some 2, 0⟩ := by decide
    change pgBrickGetEdge (forkGraph.brick 1) .west 0 = some edge at read
    rw [isTap, Option.some.injEq] at read
    rw [← read] at back
    exact absurd back (by decide)

end PacketGraph
