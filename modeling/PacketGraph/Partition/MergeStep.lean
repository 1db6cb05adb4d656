import PacketGraph.Lib.Splicing
import PacketGraph.Partition.Unqueue

namespace PacketGraph

open PartialMatching Splicing

/-!
# Merging two queues

What `merge_queues` does when it returns 0, seen through the sides on which
bricks are linked: the two queues are spliced out, and the neighbour of the
first one is linked on its east side to the west side of the other neighbour.
On the way to it: unlinking a queue takes away its links and no others, also
when the queue lost its link in the meantime.
-/

variable {ι σ : Type}

/-- A brick is linked on a side to another brick. -/
def LinkedOn (bricks : ι → Brick ι) : Sided ι Side :=
  fun brick side other =>
    ∃ index pairIndex, (bricks brick).linkAt side index = some (other, pairIndex)

variable {bricks : ι → Brick ι}

theorem touches_linkedOn_iff {brick other : ι} :
    Touches (LinkedOn bricks) brick other ↔ Adjacent bricks brick other :=
  Iff.rfl

/-- A monopole keeps one neighbour at most. -/
def IsMonopole (bricks : ι → Brick ι) (brick : ι) : Prop :=
  (bricks brick).type = .monopole

theorem queueLink_eq_some_iff_adjacent {queue neighbour : ι} (monopole : IsMonopole bricks queue) :
    queueLink (bricks queue) = some neighbour ↔ Touches (LinkedOn bricks) queue neighbour :=
  queueLink_eq_some_iff monopole

variable [DecidableEq ι] [Fintype ι]

/-- The links of a program connect bricks as splicing asks for. -/
theorem LinkInvariant.simple (invariant : LinkInvariant bricks) :
    Simple (IsMonopole bricks) (LinkedOn bricks) where
  back := fun _ _ touches => Adjacent.symm invariant touches
  loopless := by
    rintro brick ⟨side, index, pairIndex, linked⟩
    exact invariant.ne_of_linkAt linked rfl
  once := by
    intro brick one other monopole onOne onOther
    rw [← queueLink_eq_some_iff_adjacent monopole] at onOne onOther
    rw [onOne] at onOther
    exact Option.some.inj onOther

section Sides

variable {bricks : ι → Brick ι}

/-- The neighbour of a queue is linked to it on the side it faces. -/
theorem LinkInvariant.side_of_linkedOn (invariant : LinkInvariant bricks)
    {queue neighbour : ι} {side : Side} (monopole : (bricks queue).type = .monopole)
    (linked : LinkedOn bricks neighbour side queue) :
    side = pgFlipSide (opsGetSide (bricks queue)) := by
  obtain ⟨index, pairIndex, linked⟩ := linked
  rw [← (monopole_place monopole (invariant.back linked)).1, pgFlipSide_pgFlipSide]

/-- Cutting the link of a monopole takes all its links away. -/
theorem linkedOn_cutLink_iff (invariant : LinkInvariant bricks)
    {queue paired : ι} {side : Side} {index pairIndex : Nat} (monopole : IsMonopole bricks queue)
    (linked : (bricks queue).linkAt side index = some (paired, pairIndex))
    {brick other : ι} {onSide : Side} :
    LinkedOn (cutLink bricks queue side index paired pairIndex) brick onSide other ↔
      LinkedOn bricks brick onSide other ∧ brick ≠ queue ∧ other ≠ queue := by
  have read := linkAt_cutLink invariant linked
  have onlyPlace := monopole_place monopole linked
  constructor
  · rintro ⟨place, pairPlace, present⟩
    rw [read] at present
    split at present
    · cases present
    · rename_i notPaired
      split at present
      · cases present
      · rename_i notQueue
        refine ⟨⟨place, pairPlace, present⟩, ?_, ?_⟩
        · rintro rfl
          have isPlace := monopole_place monopole present
          refine notQueue ?_
          rw [isPlace.1, isPlace.2, onlyPlace.1, onlyPlace.2]
        · -- a link to the queue is the other end of its only link
          rintro rfl
          have back := invariant.back present
          have isPlace := monopole_place monopole back
          rw [isPlace.1, isPlace.2, ← onlyPlace.1, ← onlyPlace.2, linked] at back
          cases back
          refine notPaired ?_
          rw [onlyPlace.1, ← isPlace.1, pgFlipSide_pgFlipSide]
  · rintro ⟨⟨place, pairPlace, present⟩, notQueue, otherNot⟩
    refine ⟨place, pairPlace, ?_⟩
    rw [read, if_neg, if_neg]
    · exact present
    · rintro ⟨⟩
      exact notQueue rfl
    · rintro ⟨⟩
      rw [invariant.back linked] at present
      cases present
      exact otherNot rfl

omit [Fintype ι] in
/-- Joining two free edges links the two bricks and no others. -/
theorem linkedOn_joinLink_iff {west east : ι} {westIndex eastIndex : Nat} (distinct : west ≠ east)
    (westFree : FreeSlot (bricks west) .east westIndex)
    (eastFree : FreeSlot (bricks east) .west eastIndex) {brick other : ι} {side : Side} :
    LinkedOn (joinLink bricks west westIndex east eastIndex) brick side other ↔
      LinkedOn bricks brick side other ∨ (brick = west ∧ side = .east ∧ other = east ∨
          brick = east ∧ side = .west ∧ other = west) := by
  have read := linkAt_joinLink distinct westFree eastFree
  constructor
  · rintro ⟨place, pairPlace, present⟩
    rw [read] at present
    split at present
    · rename_i isEast
      cases isEast
      cases present
      exact .inr (.inr ⟨rfl, rfl, rfl⟩)
    · split at present
      · rename_i isWest
        cases isWest
        cases present
        exact .inr (.inl ⟨rfl, rfl, rfl⟩)
      · exact .inl ⟨place, pairPlace, present⟩
  · rintro (⟨place, pairPlace, present⟩ | ⟨rfl, rfl, rfl⟩ | ⟨rfl, rfl, rfl⟩)
    · refine ⟨place, pairPlace, ?_⟩
      rw [read, if_neg, if_neg]
      · exact present
      · rintro ⟨⟩
        rw [westFree.linkAt_eq_none] at present
        cases present
      · rintro ⟨⟩
        rw [eastFree.linkAt_eq_none] at present
        cases present
    · refine ⟨westIndex, eastIndex, ?_⟩
      rw [read, if_neg (by simp [distinct]), if_pos rfl]
    · exact ⟨eastIndex, westIndex, by rw [read, if_pos rfl]⟩

end Sides

/-- Links were made and broken, and nothing else of the bricks moved. -/
structure LinksOnly (before after : World ι σ) : Prop where
  invariant : LinkInvariant after.bricks
  type : ∀ brick, (after.bricks brick).type = (before.bricks brick).type
  name : ∀ brick, (after.bricks brick).name = (before.bricks brick).name
  polls : after.polls = before.polls
  isQueue : after.isQueue = before.isQueue

theorem LinksOnly.trans {before between after : World ι σ} (first : LinksOnly before between)
    (second : LinksOnly between after) : LinksOnly before after where
  invariant := second.invariant
  type := fun brick => (second.type brick).trans (first.type brick)
  name := fun brick => (second.name brick).trans (first.name brick)
  polls := second.polls.trans first.polls
  isQueue := second.isQueue.trans first.isQueue

theorem LinksOnly.isMonopole {before after : World ι σ} (kept : LinksOnly before after) :
    IsMonopole after.bricks = IsMonopole before.bricks := by
  funext brick
  unfold IsMonopole
  rw [kept.type]

variable {ops : BrickOps ι σ} {world after : World ι σ}

section

variable (invariant : LinkInvariant world.bricks)

include invariant

/-- Unlinking a queue without an error takes away its links and no others. -/
theorem unlinkFrom_splits {queue : ι} {neighbour : Option ι}
    (monopole : IsMonopole world.bricks queue)
    (known : neighbour = none → ∀ other, ¬ Touches (LinkedOn world.bricks) queue other)
    (unlinks : unlinkFrom ops world queue neighbour = .ok (none, after)) :
    LinksOnly world after ∧ after.friend = world.friend ∧ ∀ brick side other,
        LinkedOn after.bricks brick side other ↔ LinkedOn world.bricks brick side other ∧
            brick ≠ queue ∧ other ≠ queue := by
  by_cases alone : ∀ other, ¬ Touches (LinkedOn world.bricks) queue other
  · -- nothing is left to unlink
    have same : after = world := by
      unfold unlinkFrom at unlinks
      cases neighbour with
      | none =>
        cases unlinks
        rfl
      | some neighbour =>
        have unlinked (side : Side) (index : Nat) :
            (world.bricks queue).linkAt side index = none := by
          cases linked : (world.bricks queue).linkAt side index with
          | none => rfl
          | some link => exact absurd ⟨side, index, link.2, linked⟩ (alone link.1)
        dsimp only at unlinks
        rw [pgBrickUnlink_of_unlinked ops unlinked] at unlinks
        cases unlinks
        rfl
    subst same
    refine ⟨⟨invariant, fun _ => rfl, fun _ => rfl, rfl, rfl⟩, rfl, ?_⟩
    intro brick side other
    refine ⟨fun linked => ⟨linked, ?_, ?_⟩, fun linked => linked.1⟩
    · rintro rfl
      exact alone other ⟨side, linked⟩
    · rintro rfl
      exact alone brick (invariant.simple.back brick other ⟨side, linked⟩)
  · push Not at alone
    obtain ⟨paired, side, index, pairIndex, linked⟩ := alone
    cases neighbour with
    | none => exact absurd ⟨side, index, pairIndex, linked⟩ (known rfl paired)
    | some neighbour =>
      unfold unlinkFrom at unlinks
      dsimp only at unlinks
      rw [pgBrickUnlink_of_linked ops invariant monopole linked] at unlinks
      by_cases quiet : LinkQuiet ops world.links queue side index paired pairIndex
      · rw [breakLink_of_quiet quiet] at unlinks
        cases unlinks
        exact ⟨⟨invariant.cut linked, type_cutLink world.bricks queue side index paired pairIndex,
          name_cutLink world.bricks queue side index paired pairIndex, rfl, rfl⟩, rfl,
          fun _ _ _ => linkedOn_cutLink_iff invariant monopole linked⟩
      · obtain ⟨failure, stuck, broken, _⟩ := breakLink_of_objection quiet
        rw [broken] at unlinks
        cases unlinks

/-- Linking two bricks without an error links them and no others. -/
theorem pgBrickLink_joins {west east : ι} {links : Graph ι σ}
    (returned : pgBrickLink world.links (some west) (some east) = .ok (none, links)) :
    LinksOnly world (world.withLinks links) ∧ ∀ brick side other,
        LinkedOn links.brick brick side other ↔ LinkedOn world.bricks brick side other ∨
            (brick = west ∧ side = .east ∧ other = east ∨
              brick = east ∧ side = .west ∧ other = west) := by
  rcases pgBrickLink_cases invariant.counted (some west) (some east)
    with ⟨failure, fails⟩ | ⟨_, _, westIndex, eastIndex, isWest, isEast, distinct, westRoom,
        eastRoom, westFree, eastFree, joins⟩
  · rw [fails] at returned
    cases returned
  · cases isWest
    cases isEast
    rw [joins] at returned
    cases returned
    exact ⟨⟨invariant.join distinct westFree westRoom eastFree eastRoom,
      type_joinLink world.bricks west westIndex east eastIndex,
      name_joinLink world.bricks west westIndex east eastIndex, rfl, rfl⟩,
      fun _ _ _ => linkedOn_joinLink_iff distinct westFree eastFree⟩

theorem LinksOnly.unfriend (queue : ι) : LinksOnly world (pgQueueUnfriend world queue) := by
  have same : (pgQueueUnfriend world queue).bricks = world.bricks :=
    congrArg Graph.brick (links_pgQueueUnfriend world queue)
  exact
    { invariant := same ▸ invariant
      type := fun brick => by rw [same]
      name := fun brick => by rw [same]
      polls := polls_pgQueueUnfriend world queue
      isQueue := isQueue_pgQueueUnfriend world queue }

/-- Merging two queues without an error splices them out. -/
theorem mergeQueues_splices {q1 q2 : ι} (firstSingle : IsMonopole world.bricks q1)
    (secondSingle : IsMonopole world.bricks q2)
    (merges : mergeQueues ops world q1 q2 = .ok (none, after)) :
    LinksOnly world after ∧ after.friend = (pgQueueUnfriend world q1).friend ∧
      LinkedOn after.bricks = splice .east .west (LinkedOn world.bricks) q1 q2 := by
  have sameBricks : (pgQueueUnfriend world q1).bricks = world.bricks :=
    congrArg Graph.brick (links_pgQueueUnfriend world q1)
  have unfriended := LinksOnly.unfriend invariant q1
  have firstPair (other : ι) := @queueLink_eq_some_iff_adjacent ι world.bricks q1 other firstSingle
  have secondPair (other : ι) := @queueLink_eq_some_iff_adjacent ι
    world.bricks q2 other secondSingle
  unfold mergeQueues at merges
  dsimp only at merges
  -- the first queue loses its links
  split at merges
  · cases merges
  · cases merges
  rename_i second unlinksFirst
  obtain ⟨firstKept, firstFriends, firstLinks⟩ :=
    unlinkFrom_splits unfriended.invariant (unfriended.isMonopole ▸ firstSingle)
      (fun nothing other touches => by
        rw [sameBricks, ← firstPair, nothing] at touches
        cases touches)
      unlinksFirst
  rw [sameBricks] at firstLinks
  have soFar := unfriended.trans firstKept
  -- then the second one, which may have been the neighbour of the first
  split at merges
  · cases merges
  · cases merges
  rename_i third unlinksSecond
  obtain ⟨secondKept, secondFriends, secondLinks⟩ :=
    unlinkFrom_splits firstKept.invariant (soFar.isMonopole ▸ secondSingle) (fun nothing other => by
        rintro ⟨side, linked⟩
        have touches : Touches (LinkedOn world.bricks) q2 other :=
          ⟨side, ((firstLinks q2 side other).mp linked).1⟩
        rw [← secondPair, nothing] at touches
        cases touches)
      unlinksSecond
  have bothUnlinked (brick : ι) (side : Side) (other : ι) : LinkedOn third.bricks brick side other ↔
        LinkedOn world.bricks brick side other ∧
          (brick ≠ q1 ∧ brick ≠ q2) ∧ other ≠ q1 ∧ other ≠ q2 := by
    rw [secondLinks, firstLinks]
    tauto
  have friends : third.friend = (pgQueueUnfriend world q1).friend :=
    secondFriends.trans firstFriends
  split at merges
  · -- both queues had neighbours
    rename_i west east isWest isEast
    rw [firstPair] at isWest
    rw [secondPair] at isEast
    cases returned : pgBrickLink third.links (some west) (some east) with
    | error failure =>
      rw [returned] at merges
      cases merges
    | ok ended =>
      rw [returned] at merges
      obtain ⟨outcome, links⟩ := ended
      cases merges
      obtain ⟨linkKept, joined⟩ := pgBrickLink_joins secondKept.invariant returned
      refine ⟨(soFar.trans secondKept).trans linkKept, friends, ?_⟩
      funext brick side other
      refine propext ((joined brick side other).trans ?_)
      rw [bothUnlinked]
      refine or_congr_right ⟨fun made => ⟨west, east, isWest, isEast, made⟩, ?_⟩
      rintro ⟨before, behind, onFirst, onSecond, made⟩
      rw [invariant.simple.once q1 before west firstSingle onFirst isWest,
        invariant.simple.once q2 behind east secondSingle onSecond isEast] at made
      exact made
  · -- one of them had none, and nothing is linked
    rename_i notBoth
    cases merges
    refine ⟨soFar.trans secondKept, friends, ?_⟩
    funext brick side other
    refine propext ((bothUnlinked brick side other).trans ?_)
    refine ⟨.inl, ?_⟩
    rintro (kept | ⟨before, behind, onFirst, onSecond, _⟩)
    · exact kept
    · rw [← firstPair] at onFirst
      rw [← secondPair] at onSecond
      exact absurd onSecond (notBoth before behind onFirst)

end

end PacketGraph
