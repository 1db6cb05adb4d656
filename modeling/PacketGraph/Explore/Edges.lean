import PacketGraph.Brick.LinkSafety

namespace PacketGraph

open List Option

/-!
# The edges that the edge iterator visits

`PG_BRICK_FOREACH_EDGES` skips the holes in the edge arrays of a brick.  It
visits the edges that link to a brick, and all of them.
-/

variable {ι : Type}

/-- The edges that the iterator visits, bounded by its rounds. -/
def edgesVisitedFrom (brick : Brick ι) :
    Nat → EdgeIterator → List (Edge ι)
  | 0, _ => []
  | rounds + 1, it =>
    match it.finished, it.side with
    | false, some side =>
      (pgBrickGetEdge brick side it.edge).toList ++
        edgesVisitedFrom brick rounds (pgBrickEdgeIteratorNext brick it)
    | _, _ => []

/-- The edges that `PG_BRICK_FOREACH_EDGES` visits. -/
def edgesVisited (brick : Brick ι) : List (Edge ι) :=
  let start := pgBrickEdgeIteratorInit brick
  edgesVisitedFrom brick (start.ahead brick + 1) start

/-- Every edge that is visited is an edge of the brick. -/
theorem getEdge_of_mem_visitedFrom {brick : Brick ι} {edge : Edge ι} {rounds : Nat}
    {it : EdgeIterator} (visited : edge ∈ edgesVisitedFrom brick rounds it) :
    ∃ side index, pgBrickGetEdge brick side index = some edge := by
  induction rounds generalizing it with
  | zero => exact absurd visited not_mem_nil
  | succ rounds ih =>
    unfold edgesVisitedFrom at visited
    split at visited
    · rename_i side _ _
      rcases mem_append.mp visited with here | later
      · exact ⟨side, it.edge, mem_toList.mp here⟩
      · exact ih later
    · exact absurd visited not_mem_nil

section Walk

variable {brick : Brick ι} {it : EdgeIterator} {side : Side} {index : Nat}

/-- The iterator stands at a place or before it. -/
def EdgeIterator.Reaches (it : EdgeIterator) (side : Side) (index : Nat) : Prop :=
  it.finished = false ∧ (it.side = some .west ∧ side = .east ∨
      it.side = some side ∧ it.edge ≤ index)

theorem EdgeIterator.ahead_bump (brick : Brick ι) (onSide : it.side ≠ none) :
    (it.bump brick).ahead brick < it.ahead brick := by
  rcases it with ⟨onSide? | side, edge, finished⟩
  · exact absurd rfl onSide
  · by_cases inside : edge + 1 < (brick.sides side).max
    · have isNext : EdgeIterator.bump ⟨some side, edge, finished⟩ brick =
            ⟨some side, edge + 1, finished⟩ :=
        if_pos inside
      rw [isNext]
      cases side <;> simp only [EdgeIterator.ahead, Brick.sides] at inside ⊢ <;> omega
    · have isNext : EdgeIterator.bump ⟨some side, edge, finished⟩ brick =
            ⟨nextSide (some side), 0, finished⟩ :=
        if_neg inside
      rw [isNext]
      cases side <;> simp only [EdgeIterator.ahead, nextSide] <;> omega

/-- The next place still reaches what is ahead. -/
theorem EdgeIterator.Reaches.bump (reaches : it.Reaches side index)
    (inRange : index = 0 ∨ index < (brick.sides side).max)
    (elsewhere : ¬ (it.side = some side ∧ it.edge = index)) :
    (it.bump brick).Reaches side index := by
  obtain ⟨notFinished, isWest | isSide⟩ := reaches
  · obtain ⟨isWest, rfl⟩ := isWest
    unfold EdgeIterator.bump
    split
    · exact ⟨notFinished, .inl ⟨isWest, rfl⟩⟩
    · refine ⟨notFinished, .inr ⟨?_, Nat.zero_le _⟩⟩
      simp only [isWest, nextSide]
  · have before : it.edge < index :=
      Nat.lt_of_le_of_ne isSide.2 (fun same => elsewhere ⟨isSide.1, same⟩)
    have inside : it.edge + 1 < it.sideMax brick := by
      unfold EdgeIterator.sideMax
      rw [isSide.1]
      rcases inRange with rfl | below
      · omega
      · exact Nat.lt_of_le_of_lt before below
    unfold EdgeIterator.bump
    rw [if_pos inside]
    exact ⟨notFinished, .inr ⟨isSide.1, before⟩⟩

/-- Advancing does not skip an edge with a link. -/
theorem EdgeIterator.Reaches.next (notMonopole : brick.type ≠ .monopole)
    (linked :
      EdgeIterator.onLink { side := some side, edge := index, finished := false } brick = true)
    (inRange : index = 0 ∨ index < (brick.sides side).max) {rounds : Nat}
    (enough : it.ahead brick ≤ rounds) (reaches : it.Reaches side index)
    (elsewhere : ¬ (it.side = some side ∧ it.edge = index)) :
    (edgeIteratorNextUpTo brick rounds it).Reaches side index ∧
      (edgeIteratorNextUpTo brick rounds it).ahead brick < it.ahead brick := by
  have onSide : it.side ≠ none := by
    rcases reaches.2 with ⟨isWest, _⟩ | ⟨isSide, _⟩
    · simp [isWest]
    · simp [isSide]
  have shorter := EdgeIterator.ahead_bump brick onSide
  have bumped := reaches.bump inRange elsewhere
  induction rounds generalizing it with
  | zero => omega
  | succ rounds ih =>
    have bumpedSide : (it.bump brick).side ≠ none := by
      rcases bumped.2 with ⟨isWest, _⟩ | ⟨isSide, _⟩
      · simp [isWest]
      · simp [isSide]
    unfold edgeIteratorNextUpTo
    simp only [reaches.1, Bool.false_eq_true, if_false, notMonopole, bumpedSide]
    by_cases stops : (it.bump brick).onLink brick = true
    · rw [if_pos stops]
      exact ⟨bumped, shorter⟩
    · rw [if_neg stops]
      have notThere : ¬ ((it.bump brick).side = some side ∧ (it.bump brick).edge = index) := by
        rintro ⟨isSide, isEdge⟩
        unfold EdgeIterator.onLink at linked stops
        rw [isSide, isEdge] at stops
        exact stops linked
      obtain ⟨further, less⟩ :=
        ih (by omega) bumped notThere bumpedSide
          (EdgeIterator.ahead_bump brick bumpedSide) (bumped.bump inRange notThere)
      exact ⟨further, Nat.lt_trans less shorter⟩

/-- An edge with a link that the iterator reaches is visited. -/
theorem EdgeIterator.Reaches.visited (notMonopole : brick.type ≠ .monopole) {edge : Edge ι}
    (isEdge : pgBrickGetEdge brick side index = some edge) (isLink : edge.link.isSome = true)
    (inRange : index = 0 ∨ index < (brick.sides side).max) {rounds : Nat}
    (enough : it.ahead brick < rounds) (reaches : it.Reaches side index) :
    edge ∈ edgesVisitedFrom brick rounds it := by
  have linked : EdgeIterator.onLink { side := some side, edge := index, finished := false } brick =
          true := by
    simp only [EdgeIterator.onLink, isEdge]
    exact isLink
  induction rounds generalizing it with
  | zero => exact absurd enough (Nat.not_lt_zero _)
  | succ rounds ih =>
    obtain ⟨current, isCurrent⟩ : ∃ current, it.side = some current := by
      rcases reaches.2 with ⟨isWest, _⟩ | ⟨isSide, _⟩
      · exact ⟨_, isWest⟩
      · exact ⟨_, isSide⟩
    unfold edgesVisitedFrom
    rw [reaches.1, isCurrent]
    by_cases here : it.side = some side ∧ it.edge = index
    · refine mem_append_left _ ?_
      rw [isCurrent, some.injEq] at here
      rw [here.1, here.2, isEdge]
      exact mem_singleton.mpr rfl
    · obtain ⟨further, less⟩ := reaches.next notMonopole linked inRange (Nat.le_succ _) here
      exact mem_append_right _ (ih (Nat.lt_of_lt_of_le less (Nat.le_of_lt_succ enough)) further)

end Walk

section Visits

variable {brick : Brick ι}

/-- The iterator starts at an edge with a link or before it. -/
theorem pgBrickEdgeIteratorInit_reaches (notMonopole : brick.type ≠ .monopole)
    {side : Side} {index : Nat}
    (linked :
      EdgeIterator.onLink { side := some side, edge := index, finished := false } brick = true)
    (inRange : index = 0 ∨ index < (brick.sides side).max) :
    (pgBrickEdgeIteratorInit brick).Reaches side index := by
  let start : EdgeIterator := { side := some .west, edge := 0, finished := false }
  have reaches : start.Reaches side index := by
    refine ⟨rfl, ?_⟩
    cases side with
    | west => exact .inr ⟨rfl, Nat.zero_le _⟩
    | east => exact .inl ⟨rfl, rfl⟩
  unfold pgBrickEdgeIteratorInit
  by_cases stops : start.onLink brick = true
  · rw [if_pos stops]
    exact reaches
  · rw [if_neg stops]
    refine (reaches.next notMonopole linked inRange (Nat.le_succ _) ?_).1
    rintro ⟨isSide, isIndex⟩
    cases isSide
    subst isIndex
    exact stops linked

/-- Every edge with a link is visited. -/
theorem edgesVisited_mem (counted : WellCounted brick) {side : Side} {index : Nat} {edge : Edge ι}
    (isEdge : pgBrickGetEdge brick side index = some edge) (isLink : edge.link.isSome = true) :
    edge ∈ edgesVisited brick := by
  by_cases isMonopole : brick.type = .monopole
  · -- a monopole has one edge, where the iterator starts
    have isFirst : pgBrickGetEdge brick .west 0 = some edge := by
      unfold pgBrickGetEdge at isEdge ⊢
      rw [isMonopole] at isEdge ⊢
      exact isEdge
    have stops : EdgeIterator.onLink { side := some .west, edge := 0, finished := false } brick =
            true := by
      simp only [EdgeIterator.onLink, isFirst]
      exact isLink
    unfold edgesVisited pgBrickEdgeIteratorInit
    rw [if_pos stops]
    unfold edgesVisitedFrom
    simp [isFirst]
  · have isStored : pgBrickGetEdge brick side (brick.storageIndex index) = some edge := by
      rw [pgBrickGetEdge_eq] at isEdge ⊢
      unfold Brick.storageIndex at isEdge ⊢
      split <;> simp_all
    have inRange : brick.storageIndex index = 0 ∨
          brick.storageIndex index < (brick.sides side).max := by
      by_cases isMultipole : brick.type = .multipole
      · refine .inr ?_
        have size := counted.storage side
        rw [if_pos isMultipole] at size
        unfold pgBrickGetEdge at isStored
        rw [isMultipole] at isStored
        obtain ⟨below, _⟩ := List.getElem?_eq_some_iff.mp isStored
        exact size ▸ below
      · exact .inl (if_neg isMultipole)
    have linked : EdgeIterator.onLink
          { side := some side
            edge := brick.storageIndex index
            finished := false } brick = true := by
      simp only [EdgeIterator.onLink, isStored]
      exact isLink
    exact EdgeIterator.Reaches.visited isMonopole isStored isLink inRange (Nat.lt_succ_self _)
      (pgBrickEdgeIteratorInit_reaches isMonopole linked inRange)

/-- The bricks behind the visited edges are those the brick links to. -/
theorem mem_edgesVisited_iff (counted : WellCounted brick) (target : ι) :
    (∃ edge ∈ edgesVisited brick, edge.link = some target) ↔ ∃ side index pairIndex,
        brick.linkAt side index = some (target, pairIndex) := by
  constructor
  · rintro ⟨edge, visited, isLink⟩
    obtain ⟨side, index, isEdge⟩ := getEdge_of_mem_visitedFrom visited
    rcases edge with ⟨link, pairIndex⟩
    cases isLink
    exact ⟨_, _, pairIndex, linkAt_of_getEdge isEdge⟩
  · rintro ⟨side, index, pairIndex, linked⟩
    obtain ⟨_, isEdge⟩ := linkAt_eq_some_iff.mp linked
    exact ⟨_, edgesVisited_mem counted isEdge rfl, rfl⟩

end Visits

end PacketGraph
