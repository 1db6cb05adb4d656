import PacketGraph.Brick.LinkSteps

namespace PacketGraph

/-!
# Every linking call keeps the link invariant

Each call of the linking interface returns, and what it does to the graph is a
chain of joins and broken links.  A property of bricks and private states is
kept by every call when it is kept by these two elementary changes.
-/

variable {ι σ : Type}

/-- Advancing the edge iterator ends the walk or stops on a link. -/
theorem edgeIteratorNextUpTo_stops (brick : Brick ι) (rounds : Nat) (it : EdgeIterator) :
    (edgeIteratorNextUpTo brick rounds it).finished = true ∨
      (edgeIteratorNextUpTo brick rounds it).onLink brick = true := by
  induction rounds generalizing it with
  | zero => exact Or.inl rfl
  | succ rounds ih =>
    unfold edgeIteratorNextUpTo
    by_cases finished : it.finished = true
    · simp [finished]
    · by_cases single : brick.type = .monopole
      · simp [single, finished]
      · by_cases past : (it.bump brick).side = none
        · simp [finished, single, past]
        · by_cases held : (it.bump brick).onLink brick = true
          · simp [finished, single, past, held]
          · simpa [finished, single, past, held] using ih (it.bump brick)

/-- The first position of the edge iterator is the end or a link. -/
theorem pgBrickEdgeIteratorInit_stops (brick : Brick ι) :
    (pgBrickEdgeIteratorInit brick).finished = true ∨
      (pgBrickEdgeIteratorInit brick).onLink brick = true := by
  unfold pgBrickEdgeIteratorInit
  simp only
  split
  · rename_i held
    exact Or.inr held
  · exact edgeIteratorNextUpTo_stops brick _ _

/-- The edge under an iterator that stands on a link. -/
theorem EdgeIterator.exists_edge {brick : Brick ι} {it : EdgeIterator} {side : Side}
    (onSide : it.side = some side) (held : it.onLink brick = true) :
    ∃ paired pairIndex, pgBrickGetEdge brick side it.edge = some ⟨some paired, pairIndex⟩ := by
  unfold EdgeIterator.onLink at held
  rw [onSide] at held
  simp only at held
  split at held
  · exact absurd held Bool.false_ne_true
  · rename_i edge read
    obtain ⟨paired, linked⟩ := Option.isSome_iff_exists.mp held
    rcases edge with ⟨link, pairIndex⟩
    exact ⟨paired, pairIndex, by rw [read, ← linked]⟩

/-- The call returns, and what it did is a chain of elementary changes. -/
def ReturnsBySteps (step : Graph ι σ → Graph ι σ → Prop) (graph : Graph ι σ)
    (result : CallResult ι σ) : Prop :=
  ∃ outcome after, result = .ok (outcome, after) ∧ Relation.ReflTransGen step graph after

theorem returnsBySteps_same {step : Graph ι σ → Graph ι σ → Prop} (graph : Graph ι σ)
    (outcome : Option PgError) : ReturnsBySteps step graph (.ok (outcome, graph)) :=
  ⟨outcome, graph, rfl, .refl⟩

variable {graph : Graph ι σ}

/-- Steps made before a call that returns by steps. -/
theorem ReturnsBySteps.after_steps {step : Graph ι σ → Graph ι σ → Prop} {between : Graph ι σ}
    {result : CallResult ι σ} (steps : Relation.ReflTransGen step graph between)
    (rest : ReturnsBySteps step between result) : ReturnsBySteps step graph result := by
  obtain ⟨outcome, after, returned, later⟩ := rest
  exact ⟨outcome, after, returned, steps.trans later⟩

variable [DecidableEq ι]

/-- Two free edges of a graph are joined. -/
inductive JoinStep : Graph ι σ → Graph ι σ → Prop where
  | join {graph : Graph ι σ} {west east : ι} {westIndex eastIndex : Nat} (distinct : west ≠ east)
      (westRoom : isPlaceAvailable (graph.brick west) .east = true)
      (eastRoom : isPlaceAvailable (graph.brick east) .west = true)
      (westFree : FreeSlot (graph.brick west) .east westIndex)
      (eastFree : FreeSlot (graph.brick east) .west eastIndex) : JoinStep graph { graph with
          brick := joinLink graph.brick west westIndex east eastIndex }

/-- One elementary change of a graph by the linking interface. -/
inductive LinkStep (ops : BrickOps ι σ) : Graph ι σ → Graph ι σ → Prop where
  | joined {graph after : Graph ι σ} (joined : JoinStep graph after) : LinkStep ops graph after
  | broken {graph after : Graph ι σ} {outcome : Option PgError}
      {target : ι} {side : Side} {index : Nat} {paired : ι} {pairIndex : Nat} (linked :
        (graph.brick target).linkAt side index = some (paired, pairIndex)) (broken :
        breakLink ops graph target side index paired pairIndex = .ok (outcome, after)) :
      LinkStep ops graph after

/-- Breaking a link returns, and cuts the link or leaves the bricks alone. -/
theorem breakLink_cases (ops : BrickOps ι σ) (graph : Graph ι σ)
    (target : ι) (side : Side) (index : Nat) (paired : ι) (pairIndex : Nat) :
    ∃ outcome after, breakLink ops graph target side index paired pairIndex = .ok (outcome, after) ∧
        (after.brick = graph.brick ∨ after.brick =
            cutLink graph.brick target side index paired pairIndex) := by
  rw [breakLink_eq]
  dsimp only
  split
  · exact ⟨_, _, rfl, .inl rfl⟩
  · exact ⟨_, _, rfl, .inl rfl⟩
  · exact ⟨_, _, rfl, .inr rfl⟩

variable {β : Type} {ops : BrickOps ι σ}

/-- What attaching and detaching ends keep is kept by elementary changes. -/
theorem LinkStep.apply_eq {after : Graph ι σ} (step : LinkStep ops graph after) (view : Brick ι → β)
    (attached : ∀ brick side index target pairIndex, view (attach brick side index target pairIndex)
        = view brick) (detached : ∀ brick side index, view (detach brick side index) = view brick)
    (brick : ι) : view (after.brick brick) = view (graph.brick brick) := by
  cases step with
  | joined joined =>
    cases joined with
    | join => exact apply_joinLink view attached _ _ _ _ _ brick
  | @broken outcome target side index paired pairIndex linked broken =>
    obtain ⟨_, left, returned, changed⟩ :=
      breakLink_cases ops graph target side index paired pairIndex
    rw [broken, Except.ok.injEq, Prod.mk.injEq] at returned
    rw [returned.2]
    rcases changed with kept | wasCut
    · rw [kept]
    · rw [wasCut]
      exact apply_cutLink view detached _ _ _ _ _ _ brick

theorem apply_of_steps {after : Graph ι σ}
    (steps : Relation.ReflTransGen (LinkStep ops) graph after) (view : Brick ι → β)
    (attached : ∀ brick side index target pairIndex, view (attach brick side index target pairIndex)
        = view brick) (detached : ∀ brick side index, view (detach brick side index) = view brick)
    (brick : ι) : view (after.brick brick) = view (graph.brick brick) := by
  induction steps with
  | refl => rfl
  | tail _ step ih => exact (step.apply_eq view attached detached brick).trans ih

/-- The searched east edge exists and links to the east brick. -/
theorem findEastEdge_eq_some {west : Brick ι} {east : ι} {indices : List Nat} {index : Nat}
    (found : findEastEdge west east indices = .ok (some index)) :
    ∃ pairIndex, pgBrickGetEdge west .east index = some ⟨some east, pairIndex⟩ := by
  induction indices with
  | nil => simp [findEastEdge] at found
  | cons head rest ih =>
    unfold findEastEdge at found
    cases read : pgBrickGetEdge west .east head with
    | none => simp [read] at found
    | some edge =>
      by_cases linked : edge.link = some east
      · simp only [read, linked, ↓reduceIte, Except.ok.injEq, Option.some.injEq] at found
        subst found
        rcases edge with ⟨link, pairIndex⟩
        exact ⟨pairIndex, by rw [read, ← linked]⟩
      · simp only [read, linked, ↓reduceIte] at found
        exact ih found

section Invariant

variable {ops : BrickOps ι σ}

variable {graph : Graph ι σ}

/-- A call that only joins returns by elementary changes. -/
theorem ReturnsBySteps.of_joins {result : CallResult ι σ}
    (returns : ReturnsBySteps JoinStep graph result) :
    ReturnsBySteps (LinkStep ops) graph result := by
  obtain ⟨outcome, after, returned, steps⟩ := returns
  exact ⟨outcome, after, returned, steps.lift id (fun _ _ joined => LinkStep.joined joined)⟩

variable [Fintype ι] {after : Graph ι σ}

section

variable (invariant : LinkInvariant graph.brick)

include invariant

/-- Joining two free edges keeps the link invariant. -/
theorem LinkInvariant.joinStep (step : JoinStep graph after) : LinkInvariant after.brick := by
  cases step with
  | join distinct westRoom eastRoom westFree eastFree =>
    exact invariant.join distinct westFree westRoom eastFree eastRoom

/-- One elementary change keeps the link invariant. -/
theorem LinkInvariant.step (step : LinkStep ops graph after) : LinkInvariant after.brick := by
  cases step with
  | joined joined => exact invariant.joinStep joined
  | @broken outcome target side index paired pairIndex linked broken =>
    obtain ⟨_, left, returned, changed⟩ :=
      breakLink_cases ops graph target side index paired pairIndex
    rw [broken] at returned
    simp only [Except.ok.injEq, Prod.mk.injEq] at returned
    rw [returned.2]
    rcases changed with kept | wasCut
    · rw [kept]
      exact invariant
    · rw [wasCut]
      exact invariant.cut linked

/-- Any number of joins keeps the link invariant. -/
theorem LinkInvariant.joinSteps (steps : Relation.ReflTransGen JoinStep graph after)
    : LinkInvariant after.brick := by
  induction steps with
  | refl => exact invariant
  | tail _ step ih => exact ih.joinStep step

/-- Any number of elementary changes keeps the link invariant. -/
theorem LinkInvariant.steps (steps : Relation.ReflTransGen (LinkStep ops) graph after)
    : LinkInvariant after.brick := by
  induction steps with
  | refl => exact invariant
  | tail _ step ih => exact ih.step step

/-- Linking two bricks returns by joins. -/
theorem pgBrickLink_returns (west east : Option ι) :
    ReturnsBySteps JoinStep graph (pgBrickLink graph west east) := by
  rcases pgBrickLink_cases invariant.counted west east with
    ⟨failure, unchanged⟩ |
    ⟨westBrick, eastBrick, westIndex, eastIndex, rfl, rfl, distinct,
      westRoom, eastRoom, westFree, eastFree, linked⟩
  · rw [unchanged]
    exact returnsBySteps_same graph _
  · exact ⟨none, _, linked, .single (.join distinct westRoom eastRoom westFree eastFree)⟩

end

/-- Linking a chain of bricks returns by joins. -/
theorem chainLinks_returns (easts : List ι) (invariant : LinkInvariant graph.brick)
    (west : Option ι) : ReturnsBySteps JoinStep graph (chainLinks graph west easts) := by
  induction easts generalizing graph west with
  | nil => exact returnsBySteps_same graph none
  | cons east rest ih =>
    obtain ⟨outcome, after, returned, steps⟩ := pgBrickLink_returns invariant west (some east)
    unfold chainLinks
    rw [returned]
    cases outcome with
    | some failure => exact ⟨some failure, after, rfl, steps⟩
    | none => exact .after_steps steps (ih (invariant.joinSteps steps) (some east))

/-- Linking a chain of bricks, or none, returns by joins. -/
theorem pgBrickChainedLinks_returns (invariant : LinkInvariant graph.brick) (west : Option ι)
    (easts : List ι) : ReturnsBySteps JoinStep graph (pgBrickChainedLinks graph west easts) := by
  cases easts with
  | nil => exact returnsBySteps_same graph _
  | cons east rest => exact chainLinks_returns (east :: rest) invariant west

variable (ops : BrickOps ι σ)

/-- Unlinking an existing edge returns by steps. -/
theorem doUnlink_returns (invariant : LinkInvariant graph.brick) {target : ι}
    {side : Side} {index : Nat} {paired : ι} {pairIndex : Nat}
    (read : pgBrickGetEdge (graph.brick target) side index = some ⟨some paired, pairIndex⟩) :
    ReturnsBySteps (LinkStep ops) graph (doUnlink ops graph target side index) := by
  rw [doUnlink_of_linked ops invariant read]
  obtain ⟨outcome, after, broken, _⟩ :=
    breakLink_cases ops graph target ((graph.brick target).linkSide side)
      ((graph.brick target).storageIndex index) paired pairIndex
  exact ⟨outcome, after, broken, .single (.broken (linkAt_of_getEdge read) broken)⟩

/-- The loop of the generic unlink returns by steps. -/
theorem genericUnlinkFrom_returns (target : ι) (rounds : Nat)
    (invariant : LinkInvariant graph.brick) {it : EdgeIterator}
    (stops : it.finished = true ∨ it.onLink (graph.brick target) = true) :
    ReturnsBySteps (LinkStep ops) graph (genericUnlinkFrom ops target rounds graph it) := by
  induction rounds generalizing graph it with
  | zero => exact returnsBySteps_same graph none
  | succ rounds ih =>
    unfold genericUnlinkFrom
    split
    · rename_i side notFinished onSide
      have held : it.onLink (graph.brick target) = true := by simpa [notFinished] using stops
      obtain ⟨paired, pairIndex, read⟩ := EdgeIterator.exists_edge onSide held
      obtain ⟨outcome, after, returned, steps⟩ := doUnlink_returns ops invariant read
      rw [returned]
      cases outcome with
      | some failure => exact ⟨some failure, after, rfl, steps⟩
      | none =>
        exact .after_steps steps (ih (invariant.steps steps) (edgeIteratorNextUpTo_stops _ _ _))
    · exact returnsBySteps_same graph none

/-- Every call of the linking interface returns by steps. -/
theorem LinkCall.exec_returns (invariant : LinkInvariant graph.brick)
    (call : LinkCall ι) : ReturnsBySteps (LinkStep ops) graph (call.exec ops graph) := by
  cases call with
  | link west east => exact (pgBrickLink_returns invariant west east).of_joins
  | chainedLinks west easts => exact (pgBrickChainedLinks_returns invariant west easts).of_joins
  | unlinkEdge west east =>
    cases west with
    | none => exact returnsBySteps_same graph _
    | some west =>
      cases east with
      | none => exact returnsBySteps_same graph _
      | some east =>
        simp only [LinkCall.exec, pgBrickUnlinkEdge]
        split
        · exact returnsBySteps_same graph _
        · exact returnsBySteps_same graph _
        · rename_i index found
          obtain ⟨pairIndex, read⟩ := findEastEdge_eq_some found
          exact doUnlink_returns ops invariant read
  | unlink target =>
    cases target with
    | none => exact returnsBySteps_same graph _
    | some target =>
      exact genericUnlinkFrom_returns ops target _ invariant (pgBrickEdgeIteratorInit_stops _)

end Invariant

end PacketGraph
