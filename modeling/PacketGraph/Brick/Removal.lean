import PacketGraph.Brick.Destroy

namespace PacketGraph

open List Option PartialMatching

/-!
# What unlinking removes

Unlinking a brick frees its ports and those they were linked to.  Unlinking
the edge between a west and an east brick should free one pair of ports of
these bricks.  The slot of a monopole does not say on which side it is linked,
so that the link of a monopole is found from both of its ends.
-/

variable {ι σ : Type} [DecidableEq ι]

section AllLinks

variable [Fintype ι] {target : ι} {before after : ι → Brick ι}

/-- Cutting links of a brick frees its ports and those linked to them. -/
theorem peer_cuts (invariant : LinkInvariant before)
    (cuts : Relation.ReflTransGen (CutOf target) before after) (port : Port ι) :
    peer after port = peer before port ∨ peer after port = none ∧
        (port.1 = target ∨ ∃ partner, peer before port = some partner ∧ partner.1 = target) := by
  induction cuts with
  | refl => exact .inl rfl
  | @tail middle last earlier cutOf ih =>
    obtain ⟨side, index, paired, pairIndex, linked, rfl⟩ := cutOf
    have kept := invariant.cuts earlier
    have back := kept.back linked
    rw [peer_cutLink (kept.ne_of_linkAt linked) linked back, cut_apply]
    split
    · rename_i isPaired
      refine .inr ⟨rfl, .inr ⟨(target, side, index), ?_, rfl⟩⟩
      have held : peer middle port = some (target, side, index) := by
        subst isPaired
        simp [peer, back]
      rcases ih with same | ⟨gone, _⟩
      · rw [← same]
        exact held
      · rw [held] at gone
        cases gone
    · split
      · rename_i isTarget
        exact .inr ⟨rfl, .inl (by rw [isTarget])⟩
      · exact ih

/-- The links of a graph without those of a brick. -/
def peerWithout (bricks : ι → Brick ι) (target : ι) (port : Port ι) : Option (Port ι) :=
  (peer bricks port).filter (fun partner => decide (port.1 ≠ target ∧ partner.1 ≠ target))

/-- Unlinking a brick without an error removes its links and no other one. -/
theorem pgBrickUnlink_removes {ops : BrickOps ι σ} {graph : Graph ι σ}
    (invariant : LinkInvariant graph.brick) (target : ι)
    (quiet : QuietAlong ops target (graph.brick target).places graph) :
    ∃ unlinked, pgBrickUnlink ops graph (some target) = .ok (none, unlinked) ∧
        peer unlinked.brick = peerWithout graph.brick target := by
  have ends := unlinkAlong_ends ops target (graph.brick target).places invariant
  rw [pgBrickUnlink_eq ops target invariant]
  generalize unlinkAlong ops target (graph.brick target).places graph = result at ends ⊢
  cases ends with
  | stopped objects => exact absurd quiet objects
  | @all unlinked _ cuts cleared =>
    refine ⟨unlinked, rfl, funext (fun port => ?_)⟩
    have pairs := (invariant.cuts cuts).paired
    have free (place : Port ι) (ofTarget : place.1 = target) :
        peer unlinked.brick place = none := by
      obtain ⟨owner, side, index⟩ := place
      obtain rfl : owner = target := ofTarget
      have isFree : (unlinked.brick owner).linkAt side index = none := by
        cases linked : (graph.brick owner).linkAt side index with
        | none => exact linkAt_cuts invariant cuts linked
        | some link => exact cleared _ ((invariant.counted owner).mem_places linked)
      simp [peer, isFree]
    unfold peerWithout
    rcases peer_cuts invariant cuts port with same | ⟨gone, touches⟩
    · rw [← same]
      cases held : peer unlinked.brick port with
      | none => rfl
      | some partner =>
        have apart : port.1 ≠ target := by
          intro ofTarget
          rw [free port ofTarget] at held
          cases held
        have partnerApart : partner.1 ≠ target := by
          intro ofTarget
          have back := pairs port partner held
          rw [free partner ofTarget] at back
          cases back
        rw [filter_some, if_pos (by simp [apart, partnerApart])]
    · rw [gone]
      rcases touches with ofTarget | ⟨partner, held, ofTarget⟩
      · cases peer graph.brick port <;> simp [ofTarget, filter_some]
      · rw [held, filter_some, if_neg (by simp [ofTarget])]

end AllLinks

section OneLink

/-- A link that was made with one brick on the west and one on the east. -/
def LinkBetween (bricks : ι → Brick ι) (west east : ι) (westIndex eastIndex : Nat) : Prop :=
  peer bricks (west, .east, westIndex) = some (east, .west, eastIndex)

/--
`pg_brick_unlink_edge` removes one link between the bricks that it names, or
reports an error and changes nothing if there is none.
-/
def UnlinksNamed (ops : BrickOps ι σ) (graph : Graph ι σ) (west east : ι) : Prop :=
  (∃ after westIndex eastIndex,
    pgBrickUnlinkEdge ops graph (some west) (some east) = .ok (none, after) ∧
      LinkBetween graph.brick west east westIndex eastIndex ∧ peer after.brick =
        cut (peer graph.brick) (west, .east, westIndex) (east, .west, eastIndex)) ∨ ∃ failure,
      pgBrickUnlinkEdge ops graph (some west) (some east) = .ok (some failure, graph) ∧
        ∀ westIndex eastIndex, ¬ LinkBetween graph.brick west east westIndex eastIndex

/-- A monopole that is linked to a brick on its west side. -/
def LinkedBackwards (bricks : ι → Brick ι) (west east : ι) : Prop :=
  (bricks west).type = .monopole ∧ ∃ eastIndex, LinkBetween bricks east west eastIndex 0

omit [DecidableEq ι] in
theorem linkBetween_iff {bricks : ι → Brick ι} {west east : ι} {westIndex eastIndex : Nat} :
    LinkBetween bricks west east westIndex eastIndex ↔
      (bricks west).linkAt .east westIndex = some (east, eastIndex) := by
  unfold LinkBetween peer
  cases (bricks west).linkAt .east westIndex with
  | none => simp
  | some link => simp [Prod.ext_iff, pgFlipSide]

variable {indices : List Nat} {index : Nat}

/-- A search that ends without an edge saw edges to other bricks only. -/
theorem findEastEdge_eq_none {west : Brick ι} {east : ι}
    (found : findEastEdge west east indices = .ok none) (member : index ∈ indices) :
    ∃ edge, pgBrickGetEdge west .east index = some edge ∧ edge.link ≠ some east := by
  induction indices with
  | nil => cases member
  | cons head rest ih =>
    unfold findEastEdge at found
    cases read : pgBrickGetEdge west .east head with
    | none =>
      rw [read] at found
      cases found
    | some edge =>
      rw [read] at found
      dsimp only at found
      split at found
      · cases found
      · rename_i other
        rcases mem_cons.mp member with rfl | later
        · exact ⟨edge, read, other⟩
        · exact ih found later

/-- A search among edges that exist does not fail. -/
theorem findEastEdge_ne_error {west : Brick ι}
    (exist : ∀ index ∈ indices, (pgBrickGetEdge west .east index).isSome = true) (east : ι)
    (failure : PgError) : findEastEdge west east indices ≠ .error failure := by
  induction indices with
  | nil => rintro ⟨⟩
  | cons head rest ih =>
    obtain ⟨edge, read⟩ := isSome_iff_exists.mp (exist head mem_cons_self)
    unfold findEastEdge
    rw [read]
    dsimp only
    split
    · rintro ⟨⟩
    · exact ih (fun index later => exist index (mem_cons_of_mem _ later))

omit [DecidableEq ι] in
variable {brick : Brick ι}

/-- The slots that `pg_brick_unlink_edge` searches exist. -/
theorem WellCounted.getEdge_isSome (counted : WellCounted brick) {side : Side}
    (below : index < (getSide brick side).max) :
    (pgBrickGetEdge brick side index).isSome = true := by
  rw [getSide_eq] at below
  have size := counted.storage (brick.storageSide side)
  rw [pgBrickGetEdge_eq, Brick.stored, Brick.storageIndex]
  simp only [isSome_getElem?]
  split
  · rename_i multipole
    rw [if_pos multipole] at size
    omega
  · rename_i other
    rw [if_neg other] at size
    omega

omit [DecidableEq ι] in
/-- The link of an edge is in a slot that `pg_brick_unlink_edge` searches. -/
theorem WellCounted.lt_max_of_linkAt (counted : WellCounted brick) {side : Side} {link : ι × Nat}
    (linked : brick.linkAt side index = some link) : index < (getSide brick side).max := by
  obtain ⟨⟨placed, _⟩, read⟩ := linkAt_eq_some_iff.mp linked
  rw [pgBrickGetEdge_eq] at read
  have count := counted.count (brick.storageSide side)
  have room := counted.room (brick.storageSide side)
  have size := counted.storage (brick.storageSide side)
  rw [getSide_eq]
  obtain ⟨inside, _⟩ := List.getElem?_eq_some_iff.mp read
  unfold Brick.stored at inside read
  unfold Brick.storageIndex at inside read
  by_cases multipole : brick.type = .multipole
  · rw [if_pos multipole] at size inside
    omega
  · have isZero : index = 0 := placed.resolve_left multipole
    have positive : 0 < linkCount (brick.sides (brick.storageSide side)).edges := by
      unfold linkCount
      rw [countP_pos_iff]
      exact ⟨_, mem_of_getElem? read, rfl⟩
    omega

variable [Fintype ι] {ops : BrickOps ι σ} {graph : Graph ι σ} {west east : ι}

/-- No link of a brick is refused to be broken. -/
def BrickQuiet (ops : BrickOps ι σ) (graph : Graph ι σ) (target : ι) : Prop :=
  ∀ side index paired pairIndex, (graph.brick target).linkAt side index = some (paired, pairIndex) →
    LinkQuiet ops graph target side index paired pairIndex

section

variable (invariant : LinkInvariant graph.brick)

include invariant

/-- How `pg_brick_unlink_edge` ends without an error of a notified brick. -/
theorem pgBrickUnlinkEdge_ends (quiet : BrickQuiet ops graph west) (east : ι) :
    (∃ index pairIndex, pgBrickGetEdge (graph.brick west) .east index =
          some ⟨some east, pairIndex⟩ ∧
        pgBrickUnlinkEdge ops graph (some west) (some east) = .ok (none,
            cutGraph ops graph west ((graph.brick west).linkSide .east)
              ((graph.brick west).storageIndex index) east pairIndex)) ∨
      ∃ failure, pgBrickUnlinkEdge ops graph (some west) (some east) = .ok (some failure, graph) ∧
          ∀ index < (getSide (graph.brick west) .east).max, ∃ edge,
              pgBrickGetEdge (graph.brick west) .east index = some edge ∧
                edge.link ≠ some east := by
  unfold pgBrickUnlinkEdge
  dsimp only
  split
  · rename_i failure failed
    refine absurd failed (findEastEdge_ne_error ?_ _ _)
    intro index member
    exact (invariant.counted west).getEdge_isSome (mem_range.mp member)
  · rename_i found
    exact .inr ⟨_, rfl, fun index below => findEastEdge_eq_none found (mem_range.mpr below)⟩
  · rename_i index found
    obtain ⟨pairIndex, read⟩ := findEastEdge_eq_some found
    refine .inl ⟨index, pairIndex, read, ?_⟩
    rw [doUnlink_of_linked ops invariant read]
    exact breakLink_of_quiet (quiet _ _ _ _ (linkAt_of_getEdge read))

/-- A monopole that is linked backwards, seen from its slot. -/
theorem linkedBackwards_iff :
    LinkedBackwards graph.brick west east ↔ (graph.brick west).type = .monopole ∧ ∃ pairIndex,
          (graph.brick west).linkAt .west 0 = some (east, pairIndex) := by
  unfold LinkedBackwards
  simp only [linkBetween_iff]
  refine and_congr_right (fun _ => exists_congr (fun pairIndex => ?_))
  exact ⟨invariant.back, invariant.back⟩

/-- Only the named link is removed, unless a monopole is linked backwards. -/
theorem unlinksNamed_iff (quiet : BrickQuiet ops graph west)
    : UnlinksNamed ops graph west east ↔ ¬ LinkedBackwards graph.brick west east := by
  have ends := pgBrickUnlinkEdge_ends invariant quiet east
  rw [linkedBackwards_iff invariant]
  constructor
  · rintro named ⟨monopole, pairIndex, linked⟩
    obtain ⟨⟨_, sided⟩, read⟩ := linkAt_eq_some_iff.mp linked
    rcases named with ⟨_, _, _, _, between, _⟩ | ⟨failure, failed, _⟩
    · -- the link of the monopole is on its other side
      obtain ⟨⟨_, otherSided⟩, _⟩ := linkAt_eq_some_iff.mp (linkBetween_iff.mp between)
      have both := (sided monopole).trans (otherSided monopole).symm
      cases both
    · rcases ends with ⟨_, _, _, removed⟩ | ⟨_, _, others⟩
      · rw [removed] at failed
        cases failed
      · -- the search reads the only slot of the monopole
        have below := (invariant.counted west).lt_max_of_linkAt linked
        unfold getSide at below others
        rw [monopole] at below others
        obtain ⟨edge, readEast, other⟩ := others 0 below
        unfold pgBrickGetEdge at read readEast
        rw [monopole] at read readEast
        rw [read] at readEast
        cases readEast
        exact other rfl
  · intro notBackwards
    rcases ends with ⟨index, pairIndex, read, removed⟩ | ⟨_, failed, others⟩
    · have linked := linkAt_of_getEdge read
      have forwards : (graph.brick west).linkSide .east = .east := by
        unfold Brick.linkSide at linked ⊢
        split
        · rename_i monopole
          rw [if_pos monopole] at linked
          cases isSide : opsGetSide (graph.brick west) with
          | east => rfl
          | west =>
            refine absurd ⟨monopole, pairIndex, ?_⟩ notBackwards
            rw [isSide] at linked
            simpa [Brick.storageIndex, monopole] using linked
        · rfl
      rw [forwards] at linked removed
      refine .inl ⟨_, _, _, removed, linkBetween_iff.mpr linked, ?_⟩
      exact peer_cutLink (invariant.ne_of_linkAt linked) linked (invariant.back linked)
    · refine .inr ⟨_, failed, fun westIndex eastIndex between => ?_⟩
      have linked := linkBetween_iff.mp between
      obtain ⟨edge, read, other⟩ :=
        others westIndex ((invariant.counted west).lt_max_of_linkAt linked)
      rw [(linkAt_eq_some_iff.mp linked).2] at read
      cases read
      exact other rfl

end

end OneLink

/--
In every reachable graph in which no notified brick sets an error: unlinking a
brick removes its links and no other one, and unlinking an edge removes one
link between the bricks it names, or nothing if there is none, exactly unless
the west brick is a monopole that is linked to the east brick on its west
side.
-/
theorem unlinking_exact_iff [Fintype ι] {ops : BrickOps ι σ} {graph : Graph ι σ}
    (reachable : (brickSystem ops).Reachable (.ok graph)) :
    (∀ target, QuietAlong ops target (graph.brick target).places graph → ∃ after,
        pgBrickUnlink ops graph (some target) = .ok (none, after) ∧
          peer after.brick = peerWithout graph.brick target) ∧
      ∀ west east, BrickQuiet ops graph west →
        (UnlinksNamed ops graph west east ↔ ¬ LinkedBackwards graph.brick west east) := by
  obtain ⟨same, isGraph, invariant⟩ := brickSystem_invariant reachable
  cases isGraph
  exact ⟨fun target quiet => pgBrickUnlink_removes invariant target quiet,
    fun _ _ quiet => unlinksNamed_iff invariant quiet⟩

/-- The small program can break its only link. -/
theorem unlinking_exact_iff_pair : UnlinksNamed (quietOps Bool) pairJoined false true := by
  have started : (brickSystem (quietOps Bool)).Reachable (.ok pairGraph) := by
    refine .initial ⟨pairGraph, rfl, fun which => ?_⟩
    refine ⟨nopRegistry, some "nop", some (pairConfig which), ?_⟩
    cases which <;> rfl
  have linked : (brickSystem (quietOps Bool)).Reachable (.ok pairJoined) :=
    .step (.inl (.link (some false) (some true))) started ⟨pairGraph, rfl, rfl⟩
  refine ((unlinking_exact_iff linked).2 false true (fun _ _ _ _ _ => ⟨rfl, rfl⟩)).mpr ?_
  rintro ⟨isMonopole, _⟩
  cases isMonopole

/-- The bricks of a small program: a multipole and a monopole. -/
def tailConfig : Bool → BrickConfig
  | false => { name := "a", westMax := 2, eastMax := 2, type := .multipole }
  | true => { name := "b", westMax := 1, eastMax := 0, type := .monopole }

/-- The graph of this program before any call. -/
def tailGraph : Graph Bool Unit where
  brick := fun which => { blankBrick Bool (tailConfig which) with
      west :=
        { max := (tailConfig which).westMax
          nb := 0
          edges :=
            freshEdges Bool (tailConfig which).type (tailConfig which).westMax }
      east :=
        { max := (tailConfig which).eastMax
          nb := 0
          edges :=
            freshEdges Bool (tailConfig which).type (tailConfig which).eastMax } }
  priv := fun _ => ()

/-- The monopole is on the east of the multipole. -/
def tailJoined : Graph Bool Unit :=
  tailGraph.after (quietOps Bool) (.link (some false) (some true))

/--
Unlinking the edge between a monopole on the west and a brick on the east
succeeds although there is no such link, and removes the link in the other
direction.
-/
theorem unlink_edge_removes_other_link :
    (brickSystem (quietOps Bool)).Reachable (.ok tailJoined) ∧
      (∀ westIndex eastIndex, ¬ LinkBetween tailJoined.brick true false westIndex eastIndex) ∧
      LinkBetween tailJoined.brick false true 0 0 ∧
      ∃ after, pgBrickUnlinkEdge (quietOps Bool) tailJoined (some true)
            (some false) = .ok (none, after) ∧
          ¬ LinkBetween after.brick false true 0 0 := by
  have started : (brickSystem (quietOps Bool)).Reachable (.ok tailGraph) := by
    refine .initial ⟨tailGraph, rfl, fun which => ?_⟩
    refine ⟨nopRegistry, some "nop", some (tailConfig which), ?_⟩
    cases which <;> rfl
  refine ⟨?_, fun westIndex eastIndex between => ?_, rfl, _, rfl, nofun⟩
  · exact .step (.inl (.link (some false) (some true))) started ⟨tailGraph, rfl, rfl⟩
  · obtain ⟨⟨_, sided⟩, _⟩ := linkAt_eq_some_iff.mp (linkBetween_iff.mp between)
    cases sided rfl

end PacketGraph
