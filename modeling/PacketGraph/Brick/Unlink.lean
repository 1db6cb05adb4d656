import PacketGraph.Explore.Edges

namespace PacketGraph

open Function List

/-!
# Unlinking a brick

`pg_brick_unlink` walks over the edges of a brick with the edge iterator while
it takes the links away.  It does the same as going over all places of the
brick in order, breaking the link of each place that has one, until a notified
brick sets an error.
-/

variable {ι σ : Type}

/-- The places of one side from an index on; the index 0 is always looked at. -/
def sidePlaces (brick : Brick ι) (side : Side) (start : Nat) : List (Side × Nat) :=
  (List.range' start (max 1 (brick.sides side).max - start)).map (fun index => (side, index))

/-- The places of a brick, in the order of the edge iterator. -/
def Brick.places (brick : Brick ι) : List (Side × Nat) :=
  if brick.type = .monopole then
    [(opsGetSide brick, 0)]
  else
    sidePlaces brick .west 0 ++ sidePlaces brick .east 0

/-- The places that an iterator has not passed. -/
def EdgeIterator.places (it : EdgeIterator) (brick : Brick ι) : List (Side × Nat) :=
  if it.finished then
    []
  else
    match it.side with
    | none => []
    | some .west => sidePlaces brick .west it.edge ++ sidePlaces brick .east 0
    | some .east => sidePlaces brick .east it.edge

/-- The index of an iterator is one that its side has. -/
def EdgeIterator.Stands (it : EdgeIterator) (brick : Brick ι) : Prop :=
  it.edge < max 1 (it.sideMax brick)

section Places

variable {brick : Brick ι} {it : EdgeIterator} {side : Side}

theorem sidePlaces_eq_cons {start : Nat} (inside : start + 1 < (brick.sides side).max) :
    sidePlaces brick side start = (side, start) :: sidePlaces brick side (start + 1) := by
  have size : max 1 (brick.sides side).max - start =
        (max 1 (brick.sides side).max - (start + 1)) + 1 := by
    omega
  unfold sidePlaces
  rw [size, List.range'_succ, map_cons]

theorem sidePlaces_eq_singleton {start : Nat}
    (stands : start < max 1 (brick.sides side).max) (last : ¬ start + 1 < (brick.sides side).max) :
    sidePlaces brick side start = [(side, start)] := by
  have size : max 1 (brick.sides side).max - start = 1 := by omega
  unfold sidePlaces
  rw [size]
  rfl

/-- Moving an iterator leaves the place it stood on behind. -/
theorem EdgeIterator.places_bump (notFinished : it.finished = false)
    (onSide : it.side = some side) (stands : it.Stands brick) :
    it.places brick = (side, it.edge) :: (it.bump brick).places brick := by
  rcases it with ⟨itSide, edge, finished⟩
  simp only at notFinished onSide
  subst notFinished onSide
  unfold EdgeIterator.Stands at stands
  simp only [EdgeIterator.sideMax] at stands
  by_cases inside : edge + 1 < (brick.sides side).max
  · have isNext : EdgeIterator.bump ⟨some side, edge, false⟩ brick = ⟨some side, edge + 1, false⟩ :=
      if_pos inside
    rw [isNext]
    cases side <;> simp [EdgeIterator.places, sidePlaces_eq_cons inside]
  · have isNext : EdgeIterator.bump ⟨some side, edge, false⟩ brick =
          ⟨nextSide (some side), 0, false⟩ :=
      if_neg inside
    rw [isNext]
    cases side <;> simp [EdgeIterator.places, sidePlaces_eq_singleton stands inside, nextSide]

theorem EdgeIterator.stands_bump (brick : Brick ι) (it : EdgeIterator) :
    (it.bump brick).Stands brick := by
  unfold EdgeIterator.Stands EdgeIterator.bump
  split
  · rename_i inside
    have sameSide : EdgeIterator.sideMax { it with edge := it.edge + 1 } brick = it.sideMax brick :=
      rfl
    rw [sameSide]
    exact lt_max_of_lt_right inside
  · exact lt_max_of_lt_left Nat.zero_lt_one

/-- The bounds of two bricks are the same. -/
def SameBounds (brick other : Brick ι) : Prop :=
  brick.type = other.type ∧ ∀ side, (brick.sides side).max = (other.sides side).max

variable {other : Brick ι}

section

variable (same : SameBounds brick other) (it : EdgeIterator)

include same

theorem SameBounds.places : it.places brick = it.places other := by
  unfold EdgeIterator.places sidePlaces
  rw [same.2 .west, same.2 .east]

theorem SameBounds.bump : it.bump brick = it.bump other := by
  have sameMax : it.sideMax brick = it.sideMax other := by
    unfold EdgeIterator.sideMax
    split
    · rfl
    · exact same.2 _
  unfold EdgeIterator.bump
  rw [sameMax]

theorem SameBounds.ahead : it.ahead brick = it.ahead other := by
  have west := same.2 .west
  have east := same.2 .east
  simp only [Brick.sides] at west east
  unfold EdgeIterator.ahead
  rw [west, east]

end

theorem sameBounds_detach (brick : Brick ι) (side : Side) (index : Nat) :
    SameBounds (detach brick side index) brick := by
  refine ⟨type_detach brick side index, fun other => ?_⟩
  rw [sides_detach]
  split <;> rfl

variable {index : Nat} {edge : Edge ι}

section

variable (counted : WellCounted brick)

include counted

/-- The index of an edge that a brick stores is below the bound. -/
theorem WellCounted.index_lt (named : brick.type = .multipole ∨ index = 0)
    (read : pgBrickGetEdge brick side index = some edge) :
    index < max 1 (brick.sides side).max := by
  rcases named with isMultipole | isZero
  · have size := counted.storage side
    rw [if_pos isMultipole] at size
    unfold pgBrickGetEdge at read
    rw [isMultipole] at read
    obtain ⟨below, _⟩ := List.getElem?_eq_some_iff.mp read
    exact lt_max_of_lt_right (size ▸ below)
  · rw [isZero]
    exact lt_max_of_lt_left Nat.zero_lt_one

/-- Every link of a brick is at one of its places. -/
theorem WellCounted.mem_places {link : ι × Nat} (linked : brick.linkAt side index = some link)
    : (side, index) ∈ brick.places := by
  obtain ⟨⟨placed, sided⟩, read⟩ := linkAt_eq_some_iff.mp linked
  unfold Brick.places
  by_cases isMonopole : brick.type = .monopole
  · rw [if_pos isMonopole, ← sided isMonopole]
    simp only [isMonopole, reduceCtorEq, false_or] at placed
    rw [placed]
    exact mem_singleton.mpr rfl
  · rw [if_neg isMonopole]
    have inRange := counted.index_lt placed read
    have member : (side, index) ∈ sidePlaces brick side 0 := by
      unfold sidePlaces
      refine mem_map.mpr ⟨index, ?_, rfl⟩
      rw [mem_range'_1]
      omega
    cases side with
    | west => exact mem_append_left _ member
    | east => exact mem_append_right _ member

/-- A stored edge with a link is a link of its brick. -/
theorem WellCounted.exists_linkAt {target : ι} (stored : edge ∈ (brick.sides side).edges)
    (isLink : edge.link = some target) :
    ∃ otherSide index, brick.linkAt otherSide index = some (target, edge.pairIndex) := by
  rcases edge with ⟨link, pairIndex⟩
  simp only at isLink
  subst isLink
  obtain ⟨place, inside, value⟩ := mem_iff_getElem.mp stored
  have size := counted.storage side
  have read : (brick.sides side).edges[place]? = some ⟨some target, pairIndex⟩ :=
    List.getElem?_eq_some_iff.mpr ⟨inside, value⟩
  have canonical (isEdge : pgBrickGetEdge brick side place = some ⟨some target, pairIndex⟩) :
      ∃ otherSide index, brick.linkAt otherSide index = some (target, pairIndex) :=
    ⟨_, _, linkAt_of_getEdge isEdge⟩
  cases kind : brick.type with
  | multipole =>
    refine canonical ?_
    unfold pgBrickGetEdge
    rw [kind]
    exact read
  | dipole =>
    have isZero : place = 0 := by
      rw [kind] at size
      simp only [reduceCtorEq, ↓reduceIte] at size
      omega
    subst isZero
    refine canonical ?_
    unfold pgBrickGetEdge
    rw [kind]
    exact read
  | monopole =>
    have isZero : place = 0 := by
      rw [kind] at size
      simp only [reduceCtorEq, ↓reduceIte] at size
      omega
    subst isZero
    cases side with
    | west =>
      refine canonical ?_
      unfold pgBrickGetEdge
      rw [kind]
      exact read
    | east =>
      -- the other storage of a monopole holds no link
      have spare := counted.spare kind
      unfold linkCount at spare
      rw [countP_eq_zero] at spare
      exact absurd rfl (spare _ stored)

end

/-- An iterator away from links passes over its place. -/
theorem linkAt_eq_none_of_onLink (onSide : it.side = some side)
    (notOn : it.onLink brick ≠ true) : brick.linkAt side it.edge = none := by
  cases read : brick.linkAt side it.edge with
  | none => rfl
  | some link =>
    obtain ⟨_, isEdge⟩ := linkAt_eq_some_iff.mp read
    refine absurd ?_ notOn
    unfold EdgeIterator.onLink
    rw [onSide]
    simp only [isEdge]
    rfl

/-- Advancing the iterator ends the walk or comes nearer to the end. -/
theorem edgeIteratorNextUpTo_ahead (onSide : it.side ≠ none) (rounds : Nat) :
    (edgeIteratorNextUpTo brick rounds it).finished = true ∨
      (edgeIteratorNextUpTo brick rounds it).Stands brick ∧
        (edgeIteratorNextUpTo brick rounds it).ahead brick < it.ahead brick := by
  induction rounds generalizing it with
  | zero => exact Or.inl rfl
  | succ rounds ih =>
    have shorter := EdgeIterator.ahead_bump brick onSide
    unfold edgeIteratorNextUpTo
    by_cases finished : it.finished = true
    · simp [finished]
    · by_cases single : brick.type = .monopole
      · simp [single, finished]
      · by_cases past : (it.bump brick).side = none
        · simp [finished, single, past]
        · simp only [finished, Bool.false_eq_true, ↓reduceIte, single, past]
          split
          · exact Or.inr ⟨EdgeIterator.stands_bump _ _, shorter⟩
          · rcases ih past with ended | ⟨stands, less⟩
            · exact Or.inl ended
            · exact Or.inr ⟨stands, Nat.lt_trans less shorter⟩

end Places

variable [DecidableEq ι]

/-- Break the links at some places of a brick, until an error is set. -/
def unlinkAlong (ops : BrickOps ι σ) (target : ι) :
    List (Side × Nat) → Graph ι σ → CallResult ι σ
  | [], graph => .ok (none, graph)
  | (side, index) :: rest, graph =>
    match (graph.brick target).linkAt side index with
    | none => unlinkAlong ops target rest graph
    | some (paired, pairIndex) =>
      match breakLink ops graph target side index paired pairIndex with
      | .error failure => .error failure
      | .ok (some failure, graph) => .ok (some failure, graph)
      | .ok (none, graph) => unlinkAlong ops target rest graph

/-- Neither end of a link sets an error when it is notified. -/
def LinkQuiet (ops : BrickOps ι σ) (graph : Graph ι σ) (target : ι) (side : Side) (index : Nat)
    (paired : ι) (pairIndex : Nat) : Prop :=
  let told := notify ops graph paired (pgFlipSide side) pairIndex
  told.2 = none ∧ (notify ops told.1 target side index).2 = none

/-- The graph after both ends of a link were notified and the link was cut. -/
def cutGraph (ops : BrickOps ι σ) (graph : Graph ι σ) (target : ι) (side : Side) (index : Nat)
    (paired : ι) (pairIndex : Nat) : Graph ι σ :=
  { (notify ops (notify ops graph paired (pgFlipSide side) pairIndex).1 target side index).1 with
    brick := cutLink graph.brick target side index paired pairIndex }

/-- No brick sets an error while the links at some places are broken. -/
def QuietAlong (ops : BrickOps ι σ) (target : ι) :
    List (Side × Nat) → Graph ι σ → Prop
  | [], _ => True
  | (side, index) :: rest, graph =>
    match (graph.brick target).linkAt side index with
    | none => QuietAlong ops target rest graph
    | some (paired, pairIndex) =>
      LinkQuiet ops graph target side index paired pairIndex ∧ QuietAlong ops target rest
          (cutGraph ops graph target side index paired pairIndex)

/-- No `unlink_notify` callback ever sets an error. -/
def BrickOps.Silent (ops : BrickOps ι σ) : Prop :=
  ∀ brick priv side index, (ops.unlinkNotify brick priv side index).2 = none

/-- Callbacks that set no error let every link be broken. -/
theorem quietAlong_of_silent {ops : BrickOps ι σ} (silent : ops.Silent) (target : ι)
    (places : List (Side × Nat)) (graph : Graph ι σ) : QuietAlong ops target places graph := by
  induction places generalizing graph with
  | nil => trivial
  | cons place rest ih =>
    unfold QuietAlong
    split
    · exact ih graph
    · exact ⟨⟨silent _ _ _ _, silent _ _ _ _⟩, ih _⟩

section Break

variable {ops : BrickOps ι σ} {graph : Graph ι σ}
  {target : ι} {side : Side} {index : Nat} {paired : ι} {pairIndex : Nat}

/-- A link is cut when neither end sets an error. -/
theorem breakLink_of_quiet (quiet : LinkQuiet ops graph target side index paired pairIndex) :
    breakLink ops graph target side index paired pairIndex =
      .ok (none, cutGraph ops graph target side index paired pairIndex) := by
  rw [breakLink_eq]
  dsimp only
  rw [quiet.1, quiet.2]
  rfl

/-- A link stays when one of its ends sets an error. -/
theorem breakLink_of_objection
    (objects : ¬ LinkQuiet ops graph target side index paired pairIndex) :
    ∃ failure after, breakLink ops graph target side index paired pairIndex =
          .ok (some failure, after) ∧
        after.brick = graph.brick := by
  rw [breakLink_eq]
  dsimp only
  split
  · exact ⟨_, _, rfl, rfl⟩
  · exact ⟨_, _, rfl, rfl⟩
  · rename_i first second
    exact absurd ⟨first, second⟩ objects

variable {rest : List (Side × Nat)}

theorem unlinkAlong_of_unlinked (unlinked : (graph.brick target).linkAt side index = none) :
    unlinkAlong ops target ((side, index) :: rest) graph = unlinkAlong ops target rest graph := by
  conv_lhs => unfold unlinkAlong
  rw [unlinked]

theorem unlinkAlong_of_quiet
    (linked : (graph.brick target).linkAt side index = some (paired, pairIndex))
    (quiet : LinkQuiet ops graph target side index paired pairIndex) :
    unlinkAlong ops target ((side, index) :: rest) graph = unlinkAlong ops target rest
        (cutGraph ops graph target side index paired pairIndex) := by
  conv_lhs => unfold unlinkAlong
  rw [linked]
  simp only [breakLink_of_quiet quiet]

/-- The brick whose link was cut keeps its bounds. -/
theorem sameBounds_cutGraph (ops : BrickOps ι σ) (graph : Graph ι σ)
    (side : Side) (index pairIndex : Nat) (distinct : target ≠ paired) :
    SameBounds ((cutGraph ops graph target side index paired pairIndex).brick target)
      (graph.brick target) := by
  unfold cutGraph cutLink
  simp only
  rw [update_of_ne distinct, update_self]
  exact sameBounds_detach _ _ _

end Break

section Walk

variable {ops : BrickOps ι σ} {target : ι} {graph : Graph ι σ} {it : EdgeIterator}

variable {rounds : Nat}

/-- Advancing the iterator skips places without a link only. -/
theorem unlinkAlong_next (notMonopole : (graph.brick target).type ≠ .monopole)
    (notFinished : it.finished = false) (onSide : it.side ≠ none)
    (enough : it.ahead (graph.brick target) ≤ rounds) :
    unlinkAlong ops target ((it.bump (graph.brick target)).places (graph.brick target)) graph =
      unlinkAlong ops target ((edgeIteratorNextUpTo (graph.brick target) rounds it).places
          (graph.brick target)) graph := by
  induction rounds generalizing it with
  | zero =>
    have := EdgeIterator.ahead_bump (graph.brick target) onSide
    omega
  | succ rounds ih =>
    have shorter := EdgeIterator.ahead_bump (graph.brick target) onSide
    have bumpedOn : (it.bump (graph.brick target)).finished = false := by
      unfold EdgeIterator.bump
      split <;> exact notFinished
    unfold edgeIteratorNextUpTo
    simp only [notFinished, Bool.false_eq_true, ↓reduceIte, notMonopole]
    by_cases past : (it.bump (graph.brick target)).side = none
    · simp [EdgeIterator.places, past]
    · rw [if_neg past]
      by_cases held : (it.bump (graph.brick target)).onLink (graph.brick target) = true
      · rw [if_pos held]
      · rw [if_neg held]
        obtain ⟨side, isSide⟩ := Option.ne_none_iff_exists'.mp past
        rw [EdgeIterator.places_bump bumpedOn isSide (EdgeIterator.stands_bump _ _)]
        rw [unlinkAlong_of_unlinked (linkAt_eq_none_of_onLink isSide held)]
        exact ih bumpedOn past (by omega)

/-- A finished iterator ends the loop of the generic unlink. -/
theorem genericUnlinkFrom_of_finished (rounds : Nat) (finished : it.finished = true) :
    genericUnlinkFrom ops target rounds graph it = .ok (none, graph) := by
  cases rounds with
  | zero => rfl
  | succ rounds =>
    unfold genericUnlinkFrom
    rw [finished]

variable [Fintype ι]

/-- The loop of the generic unlink goes over the places ahead. -/
theorem genericUnlinkFrom_eq (notMonopole : (graph.brick target).type ≠ .monopole)
    (invariant : LinkInvariant graph.brick)
    (stops : it.finished = true ∨ it.onLink (graph.brick target) = true)
    (stands : it.finished = true ∨ it.Stands (graph.brick target))
    (enough : it.finished = true ∨ it.ahead (graph.brick target) < rounds) :
    genericUnlinkFrom ops target rounds graph it =
      unlinkAlong ops target (it.places (graph.brick target)) graph := by
  induction rounds generalizing graph it with
  | zero =>
    have finished : it.finished = true := by simpa using enough
    simp [genericUnlinkFrom, EdgeIterator.places, finished, unlinkAlong]
  | succ rounds ih =>
    by_cases finished : it.finished = true
    · simp [genericUnlinkFrom, EdgeIterator.places, finished, unlinkAlong]
    · have notFinished : it.finished = false := by simpa using finished
      have held := stops.resolve_left finished
      have inPlace := stands.resolve_left finished
      have shorter := enough.resolve_left finished
      obtain ⟨side, onSide⟩ : ∃ side, it.side = some side := by
        unfold EdgeIterator.onLink at held
        cases isSide : it.side with
        | none => simp [isSide] at held
        | some side => exact ⟨side, rfl⟩
      obtain ⟨paired, pairIndex, read⟩ := EdgeIterator.exists_edge onSide held
      have sameSide : (graph.brick target).linkSide side = side := if_neg notMonopole
      have sameIndex : (graph.brick target).storageIndex it.edge = it.edge := by
        unfold Brick.storageIndex
        split
        · rfl
        · rename_i notMultipole
          have small := ((invariant.counted target).bound side).2 notMultipole
          unfold EdgeIterator.Stands EdgeIterator.sideMax at inPlace
          rw [onSide] at inPlace
          simp only at inPlace
          omega
      have linked := linkAt_of_getEdge read
      rw [sameSide, sameIndex] at linked
      unfold genericUnlinkFrom
      rw [notFinished, onSide]
      simp only
      rw [doUnlink_of_linked ops invariant read, sameSide, sameIndex,
        EdgeIterator.places_bump notFinished onSide inPlace]
      by_cases quiet : LinkQuiet ops graph target side it.edge paired pairIndex
      · rw [breakLink_of_quiet quiet, unlinkAlong_of_quiet linked quiet]
        simp only
        have same :=
          sameBounds_cutGraph ops graph side it.edge pairIndex (invariant.ne_of_linkAt linked)
        generalize isAfter : cutGraph ops graph target side it.edge paired pairIndex = after
        rw [isAfter] at same
        have kept : LinkInvariant after.brick := by
          rw [← isAfter]
          exact invariant.cut linked
        have stillNot : (after.brick target).type ≠ .monopole := by
          rw [same.1]
          exact notMonopole
        have sided : it.side ≠ none := by simp [onSide]
        rw [← same.bump, ← same.places, unlinkAlong_next stillNot notFinished sided (Nat.le_succ _)]
        rcases edgeIteratorNextUpTo_ahead sided (it.ahead (after.brick target) + 1)
          with ended | ⟨next, less⟩
        · exact ih stillNot kept (edgeIteratorNextUpTo_stops _ _ _) (.inl ended) (.inl ended)
        · refine ih stillNot kept (edgeIteratorNextUpTo_stops _ _ _) (.inr next) (.inr ?_)
          have before := same.ahead it
          unfold pgBrickEdgeIteratorNext
          omega
      · obtain ⟨failure, after, broken, _⟩ := breakLink_of_objection quiet
        unfold unlinkAlong
        rw [broken, linked]
        simp only [broken]

/-- The iterator of a monopole stands on its edge once. -/
theorem pgBrickGenericUnlink_monopole (isMonopole : (graph.brick target).type = .monopole)
    (invariant : LinkInvariant graph.brick) :
    pgBrickGenericUnlink ops graph target =
      unlinkAlong ops target [(opsGetSide (graph.brick target), 0)] graph := by
  let start : EdgeIterator := { side := some .west, edge := 0, finished := false }
  have sameSide : (graph.brick target).linkSide .west = opsGetSide (graph.brick target) :=
    if_pos isMonopole
  have sameIndex : (graph.brick target).storageIndex 0 = 0 := ite_self 0
  have ends (brick : Brick ι) (single : brick.type = .monopole) :
      (pgBrickEdgeIteratorNext brick start).finished = true := by
    simp [pgBrickEdgeIteratorNext, edgeIteratorNextUpTo, start, single]
  unfold pgBrickGenericUnlink pgBrickEdgeIteratorInit
  by_cases held : start.onLink (graph.brick target) = true
  · rw [if_pos held]
    obtain ⟨paired, pairIndex, read⟩ :=
      EdgeIterator.exists_edge (show start.side = some .west from rfl) held
    have linked := linkAt_of_getEdge read
    rw [sameSide, sameIndex] at linked
    unfold genericUnlinkFrom
    simp only
    rw [doUnlink_of_linked ops invariant read, sameSide, sameIndex]
    by_cases quiet : LinkQuiet ops graph target (opsGetSide (graph.brick target)) 0 paired pairIndex
    · have same :=
        sameBounds_cutGraph ops graph (opsGetSide (graph.brick target)) 0
          pairIndex (invariant.ne_of_linkAt linked)
      rw [breakLink_of_quiet quiet, unlinkAlong_of_quiet linked quiet]
      exact genericUnlinkFrom_of_finished _ (ends _ (same.1.trans isMonopole))
    · obtain ⟨failure, after, broken, _⟩ := breakLink_of_objection quiet
      unfold unlinkAlong
      rw [broken, linked]
      simp only [broken]
  · rw [if_neg held, genericUnlinkFrom_of_finished _ (ends _ isMonopole)]
    have unlinked : (graph.brick target).linkAt (opsGetSide (graph.brick target)) 0 =
          none := by
      cases read : (graph.brick target).linkAt (opsGetSide (graph.brick target)) 0 with
      | none => rfl
      | some link =>
        obtain ⟨_, isEdge⟩ := linkAt_eq_some_iff.mp read
        refine absurd ?_ held
        unfold pgBrickGetEdge at isEdge
        rw [isMonopole] at isEdge
        unfold EdgeIterator.onLink pgBrickGetEdge
        rw [isMonopole]
        simp only [start, isEdge]
        rfl
    rw [unlinkAlong_of_unlinked unlinked]
    rfl

/-- Unlinking a brick breaks the links at its places in order. -/
theorem pgBrickUnlink_eq (ops : BrickOps ι σ) (target : ι) (invariant : LinkInvariant graph.brick) :
    pgBrickUnlink ops graph (some target) =
      unlinkAlong ops target (graph.brick target).places graph := by
  unfold pgBrickUnlink Brick.places
  by_cases isMonopole : (graph.brick target).type = .monopole
  · rw [if_pos isMonopole]
    exact pgBrickGenericUnlink_monopole isMonopole invariant
  · rw [if_neg isMonopole]
    let start : EdgeIterator := { side := some .west, edge := 0, finished := false }
    have stands : start.Stands (graph.brick target) := lt_max_of_lt_left Nat.zero_lt_one
    have sided : start.side ≠ none := by simp [start]
    show genericUnlinkFrom ops target _ graph _ =
      unlinkAlong ops target (start.places (graph.brick target)) graph
    unfold pgBrickEdgeIteratorInit
    by_cases held : start.onLink (graph.brick target) = true
    · rw [if_pos held]
      exact genericUnlinkFrom_eq isMonopole invariant (.inr held)
        (.inr stands) (.inr (Nat.lt_succ_self _))
    · rw [if_neg held]
      have skips : unlinkAlong ops target (start.places (graph.brick target)) graph =
            unlinkAlong ops target ((pgBrickEdgeIteratorNext (graph.brick target) start).places
                (graph.brick target)) graph := by
        rw [EdgeIterator.places_bump rfl rfl stands,
          unlinkAlong_of_unlinked (linkAt_eq_none_of_onLink rfl held)]
        exact unlinkAlong_next isMonopole rfl sided (Nat.le_succ _)
      rw [skips]
      refine genericUnlinkFrom_eq isMonopole invariant
        (edgeIteratorNextUpTo_stops _ _ _) ?_ (.inr (Nat.lt_succ_self _))
      rcases edgeIteratorNextUpTo_ahead sided (start.ahead (graph.brick target) + 1)
        with ended | ⟨next, _⟩
      · exact .inl ended
      · exact .inr next

end Walk

/-- One link of a brick is cut. -/
def CutOf (target : ι) (before after : ι → Brick ι) : Prop :=
  ∃ side index paired pairIndex, (before target).linkAt side index = some (paired, pairIndex) ∧
      after = cutLink before target side index paired pairIndex

/-- How breaking the links at some places of a brick ends. -/
inductive UnlinkEnds (ops : BrickOps ι σ) (target : ι) (places : List (Side × Nat))
    (graph : Graph ι σ) : CallResult ι σ → Prop where
  | all {after : Graph ι σ} (quiet : QuietAlong ops target places graph)
      (cuts : Relation.ReflTransGen (CutOf target) graph.brick after.brick) (unlinked :
        ∀ place ∈ places, (after.brick target).linkAt place.1 place.2 = none) :
      UnlinkEnds ops target places graph (.ok (none, after))
  | stopped {failure : PgError} {after : Graph ι σ} (objects : ¬ QuietAlong ops target places graph)
      (cuts : Relation.ReflTransGen (CutOf target) graph.brick after.brick) (left :
        ∃ side index link, (after.brick target).linkAt side index = some link) :
      UnlinkEnds ops target places graph (.ok (some failure, after))

section Effect

variable [Fintype ι] {ops : BrickOps ι σ} {target : ι} {before after : ι → Brick ι}

theorem LinkInvariant.cuts (invariant : LinkInvariant before)
    (cuts : Relation.ReflTransGen (CutOf target) before after) : LinkInvariant after := by
  induction cuts with
  | refl => exact invariant
  | tail _ last ih =>
    obtain ⟨_, _, _, _, linked, rfl⟩ := last
    exact ih.cut linked

/-- Cutting links of a brick makes none. -/
theorem linkAt_cuts (invariant : LinkInvariant before)
    (cuts : Relation.ReflTransGen (CutOf target) before after) {side : Side} {index : Nat}
    (unlinked : (before target).linkAt side index = none) :
    (after target).linkAt side index = none := by
  induction cuts with
  | refl => exact unlinked
  | tail earlier last ih =>
    obtain ⟨otherSide, otherIndex, paired, pairIndex, linked, rfl⟩ := last
    unfold cutLink
    rw [update_of_ne ((invariant.cuts earlier).ne_of_linkAt linked), update_self,
      linkAt_detach linked]
    split
    · rfl
    · exact ih

/-- Breaking links ends with all of them cut or with one that is left. -/
theorem unlinkAlong_ends (ops : BrickOps ι σ) (target : ι) (places : List (Side × Nat))
    {graph : Graph ι σ} (invariant : LinkInvariant graph.brick) :
    UnlinkEnds ops target places graph (unlinkAlong ops target places graph) := by
  induction places generalizing graph with
  | nil => exact .all trivial .refl (by simp)
  | cons place rest ih =>
    obtain ⟨side, index⟩ := place
    cases linked : (graph.brick target).linkAt side index with
    | none =>
      have skips : QuietAlong ops target ((side, index) :: rest) graph ↔
            QuietAlong ops target rest graph := by
        conv_lhs => unfold QuietAlong
        rw [linked]
      rw [unlinkAlong_of_unlinked linked]
      have ends := ih invariant
      generalize unlinkAlong ops target rest graph = result at ends ⊢
      cases ends with
      | all quiet cuts unlinked =>
        refine .all (skips.mpr quiet) cuts ?_
        intro place member
        rcases mem_cons.mp member with rfl | later
        · exact linkAt_cuts invariant cuts linked
        · exact unlinked place later
      | stopped objects cuts left =>
        exact .stopped (fun quiet => objects (skips.mp quiet)) cuts left
    | some link =>
      obtain ⟨paired, pairIndex⟩ := link
      have both : QuietAlong ops target ((side, index) :: rest) graph ↔
            LinkQuiet ops graph target side index paired pairIndex ∧ QuietAlong ops target rest
                (cutGraph ops graph target side index paired pairIndex) := by
        conv_lhs => unfold QuietAlong
        rw [linked]
      by_cases quiet : LinkQuiet ops graph target side index paired pairIndex
      · have cutOf : CutOf target graph.brick (cutGraph ops graph target side index paired
                pairIndex).brick :=
          ⟨side, index, paired, pairIndex, linked, rfl⟩
        have kept : LinkInvariant (cutGraph ops graph target side index paired pairIndex).brick :=
          invariant.cut linked
        have cleared : ((cutGraph ops graph target side index paired
              pairIndex).brick target).linkAt side index = none := by
          unfold cutGraph cutLink
          simp only
          rw [update_of_ne (invariant.ne_of_linkAt linked), update_self, linkAt_detach linked]
          exact if_pos ⟨rfl, rfl⟩
        rw [unlinkAlong_of_quiet linked quiet]
        have ends := ih kept
        generalize unlinkAlong ops target rest
              (cutGraph ops graph target side index paired pairIndex) = result at ends ⊢
        cases ends with
        | all quietRest cuts unlinked =>
          refine .all (both.mpr ⟨quiet, quietRest⟩) (.head cutOf cuts) ?_
          intro place member
          rcases mem_cons.mp member with rfl | later
          · exact linkAt_cuts kept cuts cleared
          · exact unlinked place later
        | stopped objects cuts left =>
          exact .stopped (fun held => objects (both.mp held).2) (.head cutOf cuts) left
      · obtain ⟨failure, after, broken, kept⟩ := breakLink_of_objection quiet
        have stops : unlinkAlong ops target ((side, index) :: rest) graph =
              .ok (some failure, after) := by
          unfold unlinkAlong
          rw [linked]
          simp only [broken]
        rw [stops]
        refine .stopped (fun held => quiet (both.mp held).1) ?_
          ⟨side, index, (paired, pairIndex), ?_⟩
        · rw [kept]
        · rw [kept]
          exact linked

end Effect

end PacketGraph
