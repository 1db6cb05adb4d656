import PacketGraph.Flow.Forward
import PacketGraph.Brick.Destroy

namespace PacketGraph

open Function List Option

/-!
# Which links forwarding reaches

With neighbours that accept what they get, a burst should go out once on every
linked edge that it is meant for.  The hub goes through all slots of a side.
`pg_brick_side_forward` goes through as many slots as the side has links, and
misses a link in a slot above a free one.
-/

variable {ι σ : Type}

/-- Does a call leave by an edge? -/
def Send.leavesBy (send : Send ι) (side : Side) (index : Nat) : Bool :=
  decide (send.side = side ∧ send.index = index)

/--
A burst is sent once on each edge that it is meant for, and on no other one.
-/
def SentOnce (sends : List (Send ι)) (meant : Side → Nat → Option (Send ι)) : Prop :=
  ∀ side index, sends.filter (fun send => send.leavesBy side index) = (meant side index).toList

/-- Calls on the edges of one side. -/
def onSide (side : Side) (call : Nat → Option (Send ι)) (atSide : Side) (index : Nat)
    : Option (Send ι) :=
  if atSide = side then call index else none

/-- What `hub_burst` should send: all but the ingress edge gets the burst. -/
def hubMeant (brick : Brick ι) (fromSide : Side) (edgeIndex : Nat) (pktsMask : BitVec 64)
    (side : Side) (index : Nat) : Option (Send ι) :=
  if side = fromSide ∧ index = edgeIndex then
    none
  else
    edgeSend brick side index (pgFlipSide side) pktsMask

section Calls

/-- Neighbours that accept what they get are all called. -/
theorem burstEach_of_calm (failed : Int → Int) (calls : List (Option (Send ι))) {answers : Answers}
    (calm : ∀ call, answers call = 0) :
    burstEach failed calls answers = { code := 0, sends := calls.filterMap id } := by
  induction calls generalizing answers with
  | nil => rfl
  | cons call rest ih =>
    cases call with
    | none => exact ih calm
    | some send =>
      have later := ih (show ∀ call, answers.after 1 call = 0 from fun _ => calm _)
      simp [burstEach, calm, later]

variable {brick : Brick ι} {index : Nat}

theorem edgeSend_place {side fromSide : Side} {pktsMask : BitVec 64} {send : Send ι}
    (isSend : edgeSend brick side index fromSide pktsMask = some send) :
    send.side = side ∧ send.index = index := by
  unfold edgeSend at isSend
  split at isSend
  · cases isSend
    exact ⟨rfl, rfl⟩
  · cases isSend

/-- A burst is made on an edge exactly if it is linked. -/
theorem edgeSend_isSome_iff (multipole : brick.type = .multipole) (side : Side) (index : Nat)
    (fromSide : Side) (pktsMask : BitVec 64) :
    (edgeSend brick side index fromSide pktsMask).isSome = true ↔
      (brick.linkAt side index).isSome = true := by
  rw [linkAt_of_multipole multipole]
  unfold edgeSend
  rcases (brick.sides side).edges[index]? with
    _ | ⟨_ | target, pairIndex⟩ <;> simp

/-- A call that leaves by an edge of its own is seen only there. -/
theorem filter_toList {call : Option (Send ι)} {side : Side}
    (placed : ∀ send, call = some send → send.side = side ∧ send.index = index) (atSide : Side)
    (place : Nat) :
    call.toList.filter (fun send => send.leavesBy atSide place) =
      if atSide = side ∧ place = index then call.toList else [] := by
  cases call with
  | none => simp
  | some send =>
    obtain ⟨isSide, isIndex⟩ := placed send rfl
    subst isSide isIndex
    simp only [toList_some, filter_singleton, Send.leavesBy]
    simp only [eq_comm, Bool.cond_decide]

variable {call : Nat → Option (Send ι)}

section

variable {side : Side}
  (placed : ∀ index send, call index = some send → send.side = side ∧ send.index = index)
  (bound : Nat)

include placed

/-- Calls on the first slots of a side, seen at one edge. -/
theorem filter_calls (atSide : Side) (place : Nat) :
    ((List.range bound).filterMap call).filter (fun send => send.leavesBy atSide place) =
      if atSide = side ∧ place < bound then (call place).toList else [] := by
  induction bound with
  | zero => simp
  | succ bound ih =>
    have last : [bound].filterMap call = (call bound).toList := by
      cases isCall : call bound <;> simp [isCall]
    rw [range_succ, filterMap_append, filter_append, ih, last, filter_toList (placed bound)]
    by_cases here : place = bound
    · subst here
      simp
    · have same : place < bound + 1 ↔ place < bound := by omega
      simp [here, same]

/-- A burst on the first slots of a side reaches those of its edges. -/
theorem sentOnce_calls_iff :
    SentOnce ((List.range bound).filterMap call) (onSide side call) ↔
      ∀ index, (call index).isSome = true → index < bound := by
  constructor
  · intro reached index called
    by_contra above
    have missed := reached side index
    unfold onSide at missed
    rw [filter_calls placed, if_neg (fun inside => above inside.2), if_pos rfl] at missed
    rw [isSome_iff_exists] at called
    obtain ⟨send, isCall⟩ := called
    rw [isCall] at missed
    cases missed
  · intro below atSide index
    unfold onSide
    rw [filter_calls placed]
    by_cases here : atSide = side
    · by_cases inside : index < bound
      · rw [if_pos ⟨here, inside⟩, if_pos here]
      · rw [if_neg (fun both => inside both.2), if_pos here]
        cases isCall : call index with
        | none => rfl
        | some send => exact absurd (below index (by rw [isCall]; rfl)) inside
    · rw [if_neg (fun both => here both.1), if_neg here]
      rfl

end

end Calls

section Bursts

variable {brick : Brick ι} {answers : Answers}

section

variable (multipole : brick.type = .multipole) (counted : WellCounted brick)

include multipole counted

/-- `pg_brick_side_forward` reaches all links exactly without holes. -/
theorem pgBrickSideForward_reaches_iff (side fromSide : Side) (pktsMask : BitVec 64)
    (calm : ∀ call, answers call = 0) :
    SentOnce (pgBrickSideForward brick side fromSide pktsMask answers).sends (onSide side
          (fun index => edgeSend brick side index fromSide pktsMask)) ↔
      brick.NoHoles side := by
  unfold pgBrickSideForward
  rw [burstEach_of_calm _ _ calm, ← counted.below_nb_iff multipole]
  dsimp only
  rw [filterMap_map, id_comp]
  refine (sentOnce_calls_iff (fun _ _ => edgeSend_place) _).trans ?_
  simp only [edgeSend_isSome_iff multipole]

/-- The links of a side are in the slots that a hub goes through. -/
theorem index_lt_max {side fromSide : Side} {index : Nat} {pktsMask : BitVec 64}
    (called : (edgeSend brick side index fromSide pktsMask).isSome = true) :
    index < (brick.sides side).max := by
  rw [edgeSend_isSome_iff multipole, linkAt_isSome_of_multipole multipole] at called
  obtain ⟨edge, found, _⟩ := called
  have size := counted.storage side
  rw [if_pos multipole] at size
  rw [← size]
  exact (List.getElem?_eq_some_iff.mp found).1

/-- A hub reaches the links of a side, but for the one it skips. -/
theorem hubSide_reaches (side : Side) (skipped : Option Nat) (pktsMask : BitVec 64) :
    SentOnce ((hubSide brick side skipped pktsMask).filterMap id) (onSide side (fun index =>
          if skipped = some index then
            none
          else
            edgeSend brick side index (pgFlipSide side) pktsMask)) := by
  unfold hubSide
  rw [filterMap_map, id_comp]
  refine (sentOnce_calls_iff ?_ _).mpr ?_
  · intro index send isSend
    split at isSend
    · cases isSend
    · exact edgeSend_place isSend
  · intro index called
    split at called
    · cases called
    · exact index_lt_max multipole counted called

theorem hubBurstOneSide_reaches (fromSide : Side) (pktsMask : BitVec 64)
    (calm : ∀ call, answers call = 0) :
    SentOnce (hubBurstOneSide brick fromSide pktsMask answers).sends (onSide (pgFlipSide fromSide)
        (fun index => edgeSend brick (pgFlipSide fromSide) index fromSide pktsMask)) := by
  have reaches := hubSide_reaches multipole counted (pgFlipSide fromSide) none pktsMask
  simp only [reduceCtorEq, ↓reduceIte, pgFlipSide_pgFlipSide] at reaches
  unfold hubBurstOneSide
  rw [burstEach_of_calm _ _ calm]
  exact reaches

theorem hubBurst_reaches (fromSide : Side) (edgeIndex : Nat) (pktsMask : BitVec 64)
    (calm : ∀ call, answers call = 0) :
    SentOnce (hubBurst brick fromSide edgeIndex pktsMask answers).sends
      (hubMeant brick fromSide edgeIndex pktsMask) := by
  have back := hubSide_reaches multipole counted fromSide (some edgeIndex) pktsMask
  have forth := hubSide_reaches multipole counted (pgFlipSide fromSide) none pktsMask
  unfold hubBurst
  rw [burstEach_of_calm _ _ calm]
  intro side index
  dsimp only
  rw [filterMap_append, filter_append, back, forth]
  unfold onSide hubMeant
  cases side <;> cases fromSide <;> simp [pgFlipSide, eq_comm]

end

end Bursts

/--
In every reachable graph, `pg_brick_side_forward` sends a burst once on every
link of a side exactly if no slot below a linked one is free, and the two
bursts of the hub send it once on every link that they are meant for.
-/
theorem forwarding_reaches_links_iff [DecidableEq ι] [Fintype ι] {ops : BrickOps ι σ}
    {graph : Graph ι σ} (reachable : (brickSystem ops).Reachable (.ok graph)) {target : ι}
    (multipole : (graph.brick target).type = .multipole) (side fromSide : Side) (edgeIndex : Nat)
    (pktsMask : BitVec 64) {answers : Answers} (calm : ∀ call, answers call = 0) :
    (SentOnce (pgBrickSideForward (graph.brick target) side fromSide pktsMask answers).sends
          (onSide side (fun index => edgeSend (graph.brick target) side index fromSide pktsMask)) ↔
        (graph.brick target).NoHoles side) ∧
      SentOnce (hubBurst (graph.brick target) fromSide edgeIndex pktsMask answers).sends
        (hubMeant (graph.brick target) fromSide edgeIndex pktsMask) ∧
      SentOnce (hubBurstOneSide (graph.brick target) fromSide pktsMask answers).sends
        (onSide (pgFlipSide fromSide) (fun index =>
            edgeSend (graph.brick target) (pgFlipSide fromSide) index fromSide pktsMask)) := by
  obtain ⟨same, isGraph, invariant⟩ := brickSystem_invariant reachable
  cases isGraph
  have counted := invariant.counted target
  exact ⟨pgBrickSideForward_reaches_iff multipole counted side fromSide pktsMask calm,
    hubBurst_reaches multipole counted fromSide edgeIndex pktsMask calm,
    hubBurstOneSide_reaches multipole counted fromSide pktsMask calm⟩

/-- The bricks of a small program: two multipoles. -/
def hollowConfig : Bool → BrickConfig
  | false => { name := "a", westMax := 2, eastMax := 2, type := .multipole }
  | true => { name := "b", westMax := 2, eastMax := 2, type := .multipole }

/-- The two multipoles before any call. -/
def hollowStart : Graph Bool Unit where
  brick := fun which => { blankBrick Bool (hollowConfig which) with
      west := { max := 2, nb := 0, edges := freshEdges Bool .multipole 2 }
      east := { max := 2, nb := 0, edges := freshEdges Bool .multipole 2 } }
  priv := fun _ => ()

/-- The multipoles are linked once. -/
def hollowOnce : Graph Bool Unit :=
  hollowStart.after (quietOps Bool) (.link (some false) (some true))

/-- The multipoles are linked twice. -/
def hollowLinked : Graph Bool Unit :=
  hollowOnce.after (quietOps Bool) (.link (some false) (some true))

/-- The first link is broken. -/
def hollowCut : Graph Bool Unit :=
  hollowLinked.after (quietOps Bool) (.unlinkEdge (some false) (some true))

theorem hollowLinked_reachable : (brickSystem (quietOps Bool)).Reachable (.ok hollowLinked) := by
  have started : (brickSystem (quietOps Bool)).Reachable (.ok hollowStart) := by
    refine .initial ⟨hollowStart, rfl, fun which => ?_⟩
    refine ⟨nopRegistry, some "nop", some (hollowConfig which), ?_⟩
    cases which <;> rfl
  have once : (brickSystem (quietOps Bool)).Reachable (.ok hollowOnce) :=
    .step (.inl (.link (some false) (some true))) started ⟨hollowStart, rfl, rfl⟩
  exact .step (.inl (.link (some false) (some true))) once ⟨hollowOnce, rfl, rfl⟩

/-- Both links of a side are reached while none was broken. -/
theorem forwarding_reaches_links_iff_linked :
    SentOnce (pgBrickSideForward (hollowLinked.brick false) .east .west 1#64 (fun _ => 0)).sends
      (onSide .east (fun index => edgeSend (hollowLinked.brick false) .east index .west 1#64)) := by
  refine (forwarding_reaches_links_iff hollowLinked_reachable rfl .east .west
    0 1#64 (fun _ => rfl)).1.mpr ?_
  intro index linked lower below
  rw [linkAt_isSome_of_multipole rfl] at linked
  obtain ⟨edge, found, _⟩ := linked
  have inside : index < 2 := (List.getElem?_eq_some_iff.mp found).1
  obtain rfl : lower = 0 := by omega
  decide +kernel

/-- The link in slot 1 of a side gets nothing when slot 0 is free. -/
theorem forward_misses_link_above_hole :
    (brickSystem (quietOps Bool)).Reachable (.ok hollowCut) ∧
      (hollowCut.brick false).type = .multipole ∧
      (hollowCut.brick false).linkAt .east 1 = some (true, 1) ∧
      (pgBrickSideForward (hollowCut.brick false) .east .west 1#64 (fun _ => 0)).sends = [] := by
  refine ⟨?_, rfl, by decide +kernel, by decide +kernel⟩
  exact .step (.inl (.unlinkEdge (some false) (some true)))
    hollowLinked_reachable ⟨hollowLinked, rfl, rfl⟩

end PacketGraph
