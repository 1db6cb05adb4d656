import PacketGraph.Brick.LinkSafety

namespace PacketGraph

/-!
# Runs of the linking interface

A run starts from bricks made by `pg_brick_new` and makes any calls of the
linking interface.  The link invariant holds in every state of every run, and
no call aborts.
-/

open List TransitionSystem

variable {ι σ : Type}

/-- A brick as `pg_brick_new` leaves it: counted, referenced once, unlinked. -/
structure Fresh (brick : Brick ι) : Prop where
  counted : WellCounted brick
  referenced : brick.refcount = 1
  unlinked : ∀ side, ∀ edge ∈ (brick.sides side).edges, edge = .empty

/-- The edges of a fresh side are all empty. -/
theorem eq_empty_of_mem_freshEdges {type : BrickType} {max : Nat} {edge : Edge ι}
    (member : edge ∈ freshEdges ι type max) : edge = .empty := by
  cases type with
  | multipole => exact eq_of_mem_replicate member
  | monopole | dipole => exact mem_singleton.mp member

@[simp] theorem linkCount_freshEdges (type : BrickType) (max : Nat) :
    linkCount (freshEdges ι type max) = 0 := by
  unfold linkCount
  rw [countP_eq_zero]
  intro edge member
  simp [eq_empty_of_mem_freshEdges member, Edge.empty]

/-- An admitted configuration keeps its bounds under `uint16_t`. -/
theorem checkSideMax_bounds {config : BrickConfig} (admitted : checkSideMax config = .ok ()) :
    (config.westMax < uint16Max ∧ config.eastMax < uint16Max) ∧
      (config.type ≠ .multipole → config.westMax ≤ 1 ∧ config.eastMax ≤ 1) := by
  unfold checkSideMax uint16Max at *
  by_cases kind : config.type = .multipole
  · simp only [kind, true_and, ne_eq, not_true_eq_false, false_and, ↓reduceIte] at admitted
    split at admitted
    · exact absurd admitted (by simp)
    · exact ⟨by omega, by simp [kind]⟩
  · simp only [kind, false_and, ↓reduceIte, ne_eq, not_false_eq_true, true_and] at admitted
    split at admitted
    · exact absurd admitted (by simp)
    · exact ⟨by omega, by omega⟩

variable {brick : Brick ι}

/-- Allocating the edges of an admitted blank brick makes a fresh brick. -/
theorem allocEdges_fresh {config : BrickConfig} (admitted : checkSideMax config = .ok ())
    (allocated : allocEdges (blankBrick ι config) = .ok brick) : Fresh brick := by
  obtain ⟨⟨westBound, eastBound⟩, single⟩ := checkSideMax_bounds admitted
  unfold uint16Max at westBound eastBound
  unfold allocEdges at allocated
  split at allocated
  · exact absurd allocated (by simp)
  · simp only [Except.ok.injEq] at allocated
    subst allocated
    have westSize : config.westMax % 65536 = config.westMax := Nat.mod_eq_of_lt (by omega)
    have eastSize : config.eastMax % 65536 = config.eastMax := Nat.mod_eq_of_lt (by omega)
    refine ⟨⟨?_, ?_, ?_, ?_, ?_⟩, rfl, ?_⟩
    · intro side
      cases side <;> cases kind : config.type <;> simp [Brick.sides, blankBrick, freshEdges, kind]
    · intro side
      unfold uint16Max
      cases side with
      | west =>
        refine ⟨?_, fun kind => ?_⟩
        · simp only [Brick.sides, blankBrick]
          omega
        · have small := (single kind).1
          simp only [Brick.sides, blankBrick]
          omega
      | east =>
        refine ⟨?_, fun kind => ?_⟩
        · simp only [Brick.sides, blankBrick]
          omega
        · have small := (single kind).2
          simp only [Brick.sides, blankBrick]
          omega
    · intro side
      cases side <;> simp [Brick.sides, blankBrick]
    · intro side
      cases side <;> simp [Brick.sides, blankBrick]
    · intro _
      simp
    · intro side edge member
      cases side <;> exact eq_empty_of_mem_freshEdges member

variable {registry : List (OpsEntry ι σ)} {priv : σ}

section

variable {name : Option String} {config : Option BrickConfig}
  (made : pgBrickNew registry name config = .ok (brick, priv))

include made

/-- What `pg_brick_new` went through when it returns a brick. -/
theorem pgBrickNew_eq_ok :
    ∃ entry ∈ registry, ∃ admitted, config = some admitted ∧ checkSideMax admitted = .ok () ∧
        entry.init (blankBrick ι admitted) admitted = .ok priv ∧
        allocEdges (blankBrick ι admitted) = .ok brick := by
  unfold pgBrickNew at made
  split at made
  · exact absurd made (by simp)
  · exact absurd made (by simp)
  · rename_i config name
    split at made
    · exact absurd made (by simp)
    · rename_i entry found
      split at made
      · exact absurd made (by simp)
      · split at made
        · exact absurd made (by simp)
        · rename_i checked
          split at made
          · exact absurd made (by simp)
          · exact absurd made (by simp)
          · rename_i privateState started
            cases allocated : allocEdges (blankBrick ι config) with
            | error failure => simp [allocated, Except.map] at made
            | ok result =>
              simp only [allocated, Except.map, Except.ok.injEq, Prod.mk.injEq] at made
              obtain ⟨rfl, rfl⟩ := made
              exact ⟨entry, mem_of_find?_eq_some found, config, rfl, checked, started, allocated⟩

/-- Every brick that `pg_brick_new` returns is fresh. -/
theorem pgBrickNew_fresh : Fresh brick := by
  obtain ⟨_, _, admitted, _, checked, _, allocated⟩ := pgBrickNew_eq_ok made
  exact allocEdges_fresh checked allocated

end

/-- Allocating edges keeps the type and the name of a brick. -/
theorem allocEdges_eq_ok {blank : Brick ι} (allocated : allocEdges blank = .ok brick) :
    brick.type = blank.type ∧ brick.name = blank.name := by
  unfold allocEdges at allocated
  split at allocated
  · exact absurd allocated (by simp)
  · simp only [Except.ok.injEq] at allocated
    subst allocated
    exact ⟨rfl, rfl⟩

/-- Allocating the edges keeps how many there may be. -/
theorem max_allocEdges {blank : Brick ι} (allocated : allocEdges blank = .ok brick) (side : Side) :
    (brick.sides side).max = (blank.sides side).max := by
  unfold allocEdges at allocated
  split at allocated
  · exact absurd allocated (by simp)
  · simp only [Except.ok.injEq] at allocated
    subst allocated
    cases side <;> rfl

/-- A fresh brick has no link. -/
theorem Fresh.linkAt_eq_none (fresh : Fresh brick) (side : Side) (index : Nat) :
    brick.linkAt side index = none := by
  cases read : brick.linkAt side index with
  | none => rfl
  | some link =>
    obtain ⟨_, stored⟩ := linkAt_eq_some_iff.mp read
    rw [pgBrickGetEdge_eq] at stored
    have empty := fresh.unlinked _ _ (mem_of_getElem? stored)
    simp [Edge.empty] at empty

variable [DecidableEq ι]

/-- A fresh brick links to no brick. -/
theorem Fresh.linksCount_eq_zero (fresh : Fresh brick) (target : ι) :
    pgBrickLinksCountGet brick target = 0 := by
  have bySide : ∀ side, countSide (brick.sides side) target = 0 := by
    intro side
    unfold countSide
    rw [countP_eq_zero]
    intro edge member
    simp [fresh.unlinked side edge member, Edge.empty]
  have west := bySide .west
  have east := bySide .east
  simp only [Brick.sides] at west east
  unfold pgBrickLinksCountGet Brick.side
  cases brick.type <;> simp [west, east]

/--
The runs of a program over the linking interface.

A state is the graph, or the way in which the program was aborted.
-/
def linkSystem (ops : BrickOps ι σ) : System (Except Abort (Graph ι σ)) (LinkCall ι) where
  initial := fun state => ∃ graph : Graph ι σ, state = .ok graph ∧ ∀ brick, ∃ registry name config,
          pgBrickNew registry name config = .ok (graph.brick brick, graph.priv brick)
  step := fun before call after =>
    ∃ graph, before = .ok graph ∧ after = (call.exec ops graph).map Prod.snd

section Invariant

variable [Fintype ι]

/-- Fresh bricks satisfy the link invariant. -/
theorem linkInvariant_of_fresh {bricks : ι → Brick ι} (fresh : ∀ brick, Fresh (bricks brick)) :
    LinkInvariant bricks := by
  refine ⟨?_, ?_, ?_, ?_⟩
  · intro brick
    exact (fresh brick).counted
  · intro port partner linked
    simp [peer, (fresh port.1).linkAt_eq_none] at linked
  · intro brick
    exact (fresh brick).linksCount_eq_zero brick
  · intro brick
    have none_in : incoming bricks brick = 0 :=
      Finset.sum_eq_zero (fun other _ => (fresh other).linksCount_eq_zero brick)
    rw [(fresh brick).referenced, none_in]
    rfl

/-- Every reachable state is a graph that satisfies the link invariant. -/
theorem linkSystem_invariant {ops : BrickOps ι σ} {state : Except Abort (Graph ι σ)}
    (reachable : (linkSystem ops).Reachable state) :
    ∃ graph, state = .ok graph ∧ LinkInvariant graph.brick := by
  refine reachable.invariant ?_ ?_
  · rintro start ⟨graph, rfl, made⟩
    refine ⟨graph, rfl, linkInvariant_of_fresh fun brick => ?_⟩
    obtain ⟨registry, name, config, returned⟩ := made brick
    exact pgBrickNew_fresh returned
  · rintro before call after ⟨graph, rfl, invariant⟩ ⟨same, isGraph, rfl⟩
    cases isGraph
    obtain ⟨outcome, after, returned, steps⟩ := call.exec_returns ops invariant
    exact ⟨after, by rw [returned]; rfl, invariant.steps steps⟩

/-- The incoming links of a brick all come from other bricks. -/
theorem LinkInvariant.incoming_eq_others {bricks : ι → Brick ι} (invariant : LinkInvariant bricks)
    (target : ι) :
    incoming bricks target = ∑ other ∈ Finset.univ.erase target,
        pgBrickLinksCountGet (bricks other) target := by
  unfold incoming
  rw [← Finset.add_sum_erase Finset.univ _ (Finset.mem_univ target),
    invariant.loopless, Nat.zero_add]

/--
The representation invariant of the link graph, over every run: no call
aborts, links are paired, counters count, and references are the links of
other bricks.
-/
theorem linkSystem_representation {ops : BrickOps ι σ} {state : Except Abort (Graph ι σ)}
    (reachable : (linkSystem ops).Reachable state) :
    ∃ graph, state = .ok graph ∧ (∀ brick side index paired pairIndex,
        (graph.brick brick).Names side index →
        pgBrickGetEdge (graph.brick brick) side index = some ⟨some paired, pairIndex⟩ →
        (graph.brick paired).Names (pgFlipSide side) pairIndex ∧
          pgBrickGetEdge (graph.brick paired) (pgFlipSide side) pairIndex =
            some ⟨some brick, index⟩) ∧
      (∀ brick side,
        ((graph.brick brick).sides side).nb = linkCount ((graph.brick brick).sides side).edges ∧
          ((graph.brick brick).sides side).nb ≤ ((graph.brick brick).sides side).max) ∧
      (∀ brick, (graph.brick brick).refcount = 1 + ((∑ other ∈ Finset.univ.erase brick,
            pgBrickLinksCountGet (graph.brick other) brick : Nat) : Int)) := by
  obtain ⟨graph, isGraph, invariant⟩ := linkSystem_invariant reachable
  refine ⟨graph, isGraph, ?_, ?_, ?_⟩
  · intro brick side index paired pairIndex named read
    exact linkAt_eq_some_iff.mp (invariant.back (linkAt_eq_some_iff.mpr ⟨named, read⟩))
  · intro brick side
    exact ⟨(invariant.counted brick).count side, (invariant.counted brick).room side⟩
  · intro brick
    rw [invariant.referenced, invariant.incoming_eq_others]

end Invariant

/-- Callbacks of bricks that have no `unlink_notify`. -/
def quietOps (ι : Type) : BrickOps ι Unit where
  unlinkNotify := fun _ _ _ _ => ((), none)

/-- The graph after a call, or as it was if the call aborts. -/
def Graph.after (ops : BrickOps ι σ) (graph : Graph ι σ) (call : LinkCall ι) : Graph ι σ :=
  match call.exec ops graph with
  | .ok (_, after) => after
  | .error _ => graph

/-- A registry that knows one kind of brick. -/
def nopRegistry : List (OpsEntry Bool Unit) :=
  [{ name := "nop", stateSize := 1, init := fun _ _ => .ok () }]

/-- The bricks of a small program: a multipole and a dipole. -/
def pairConfig : Bool → BrickConfig
  | false => { name := "a", westMax := 2, eastMax := 2, type := .multipole }
  | true => { name := "b", westMax := 1, eastMax := 1, type := .dipole }

/-- The graph of the small program before any call. -/
def pairGraph : Graph Bool Unit where
  brick := fun which => { blankBrick Bool (pairConfig which) with
      west :=
        { max := (pairConfig which).westMax
          nb := 0
          edges :=
            freshEdges Bool (pairConfig which).type (pairConfig which).westMax }
      east :=
        { max := (pairConfig which).eastMax
          nb := 0
          edges :=
            freshEdges Bool (pairConfig which).type (pairConfig which).eastMax } }
  priv := fun _ => ()

/-- Linking the small program is a run, and its references are counted. -/
theorem linkSystem_representation_pair :
    ∃ graph, (linkSystem (quietOps Bool)).Reachable (.ok graph) ∧ (graph.brick true).refcount = 2 ∧
        (graph.brick true).refcount = 1 + ((∑ other ∈ Finset.univ.erase true,
            pgBrickLinksCountGet (graph.brick other) true : Nat) : Int) := by
  have started : (linkSystem (quietOps Bool)).Reachable (.ok pairGraph) := by
    refine .initial ⟨pairGraph, rfl, fun which => ?_⟩
    refine ⟨nopRegistry, some "nop", some (pairConfig which), ?_⟩
    cases which <;> rfl
  have linked : (linkSystem (quietOps Bool)).Reachable
        (((LinkCall.link (some false) (some true)).exec (quietOps Bool) pairGraph).map Prod.snd) :=
    .step (.link (some false) (some true)) started ⟨pairGraph, rfl, rfl⟩
  obtain ⟨graph, isGraph, _, _, referenced⟩ := linkSystem_representation linked
  refine ⟨graph, isGraph ▸ linked, ?_, referenced true⟩
  have two : ((((LinkCall.link (some false) (some true)).exec
          (quietOps Bool) pairGraph).map Prod.snd).map
        (fun graph => (graph.brick true).refcount)) = .ok 2 := by
    rfl
  rw [isGraph] at two
  exact Except.ok.inj two

end PacketGraph
