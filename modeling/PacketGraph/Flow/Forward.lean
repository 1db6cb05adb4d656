import PacketGraph.Flow.Basic

namespace PacketGraph

open List

/-!
# Sending on edges

`pg_brick_burst` on the link of an edge, `pg_brick_side_forward`, and the two
bricks that only forward: the nop and the hub.  A burst to no brick returns 0.
-/

variable {ι : Type}

/-- What a brick sends while it handles a burst, and its result code. -/
structure Sent (ι : Type) where
  code : Int
  sends : List (Send ι)
  deriving Repr, DecidableEq

/-- The call of `pg_brick_burst` on the link of an edge, if it has one. -/
def edgeSend (brick : Brick ι) (side : Side) (index : Nat) (fromSide : Side) (pktsMask : BitVec 64)
    : Option (Send ι) :=
  match (brick.sides side).edges[index]? with
  | some ⟨some link, pairIndex⟩ =>
    some
      { side := side
        index := index
        target := link
        fromSide := fromSide
        edgeIndex := pairIndex
        mask := pktsMask }
  | _ => none

variable {send : Send ι}

/-- A burst on an edge leaves through its side, with the mask it was given. -/
theorem edgeSend_eq_some {brick : Brick ι} {side fromSide : Side} {index : Nat}
    {pktsMask : BitVec 64} (isSend : edgeSend brick side index fromSide pktsMask = some send) :
    send.side = side ∧ send.mask = pktsMask := by
  unfold edgeSend at isSend
  split at isSend
  · cases isSend
    exact ⟨rfl, rfl⟩
  · exact absurd isSend (by simp)

/-- One call of `pg_brick_burst`, whose result is returned. -/
def burstOnce (call : Option (Send ι)) (answers : Answers) : Sent ι :=
  match call with
  | none => { code := 0, sends := [] }
  | some send => { code := answers 0, sends := [send] }

/-- Calls of `pg_brick_burst` in a row, until one of them fails. -/
def burstEach (failed : Int → Int) :
    List (Option (Send ι)) → Answers → Sent ι
  | [], _ => { code := 0, sends := [] }
  | none :: rest, answers => burstEach failed rest answers
  | some send :: rest, answers =>
    if answers 0 < 0 then
      { code := failed (answers 0), sends := [send] }
    else
      let later := burstEach failed rest (answers.after 1)
      { later with sends := send :: later.sends }

/-- Forward a burst on the edges of a side up to `nb`. -/
def pgBrickSideForward (brick : Brick ι) (side fromSide : Side) (pktsMask : BitVec 64)
    (answers : Answers) : Sent ι :=
  burstEach (fun _ => -1) ((List.range (brick.sides side).nb).map
      (fun index => edgeSend brick side index fromSide pktsMask)) answers

/-- `nop_burst`. -/
def nopBurst (brick : Brick ι) (fromSide : Side) (pktsMask : BitVec 64) (answers : Answers)
    : Sent ι :=
  burstOnce (edgeSend brick (pgFlipSide fromSide) 0 fromSide pktsMask) answers

/-- The edges of a side, without the one of the given index if there is one. -/
def hubSide (brick : Brick ι) (side : Side) (skipped : Option Nat) (pktsMask : BitVec 64)
    : List (Option (Send ι)) :=
  (List.range (brick.sides side).max).map (fun index => if skipped = some index then
        none
      else
        edgeSend brick side index (pgFlipSide side) pktsMask)

/-- Forward to the side opposite to the ingress. -/
def hubBurstOneSide (brick : Brick ι) (fromSide : Side) (pktsMask : BitVec 64) (answers : Answers)
    : Sent ι :=
  burstEach (fun _ => -1) (hubSide brick (pgFlipSide fromSide) none pktsMask) answers

/-- Forward to both sides, the side of the ingress first. -/
def hubBurst (brick : Brick ι) (fromSide : Side) (edgeIndex : Nat) (pktsMask : BitVec 64)
    (answers : Answers) : Sent ι :=
  burstEach (fun _ => -1) (hubSide brick fromSide (some edgeIndex) pktsMask ++
      hubSide brick (pgFlipSide fromSide) none pktsMask) answers

/-- What is sent one call after the other was to be called. -/
theorem mem_of_mem_burstEach {failed : Int → Int} {calls : List (Option (Send ι))}
    {answers : Answers} (sent : send ∈ (burstEach failed calls answers).sends) :
    some send ∈ calls := by
  induction calls generalizing answers with
  | nil => exact absurd sent (by simp [burstEach])
  | cons call rest ih =>
    cases call with
    | none => exact mem_cons_of_mem _ (ih sent)
    | some first =>
      simp only [burstEach] at sent
      split at sent
      · rw [mem_singleton.mp sent]
        exact mem_cons_self
      · rcases mem_cons.mp sent with same | later
        · rw [same]
          exact mem_cons_self
        · exact mem_cons_of_mem _ (ih later)

/-- What is sent in one call was to be called. -/
theorem eq_of_mem_burstOnce {call : Option (Send ι)} {answers : Answers}
    (sent : send ∈ (burstOnce call answers).sends) : call = some send := by
  cases call with
  | none => exact absurd sent (by simp [burstOnce])
  | some first => rw [mem_singleton.mp sent]

end PacketGraph
