import PacketGraph.Brick.Unlink
import PacketGraph.Brick.LinkRuns

namespace PacketGraph

/-!
# Destroying a brick

`pg_brick_destroy` unlinks a brick, ignores the error that this may set, and
drops the reference of its caller.  The neighbours of the brick let go of it,
and it is released, exactly when no notified brick sets an error.
-/

open Function TransitionSystem

variable {ι σ : Type} [DecidableEq ι]

/-- `pg_brick_destroy`; `none` stands for a NULL argument. -/
def pgBrickDestroy (ops : BrickOps ι σ) (graph : Graph ι σ) (target : Option ι) :
    Except Abort (Graph ι σ) :=
  match pgBrickUnlink ops graph target with
  | .error failure => .error failure
  | .ok (_, graph) =>
    match target with
    | none => .ok graph
    | some target => .ok (pgBrickDecref graph target)

/--
The runs of a program: linking calls, and anything that changes the private
states of bricks, such as bursts and management operations.
-/
def brickSystem (ops : BrickOps ι σ) :
    System (Except Abort (Graph ι σ)) (LinkCall ι ⊕ (ι → σ)) where
  initial := (linkSystem ops).initial
  step := fun before label after => match label with
    | .inl call => (linkSystem ops).step before call after
    | .inr priv => ∃ graph, before = .ok graph ∧ after = .ok { graph with priv := priv }

/--
What destroying a brick is for: no other brick links to it any more, the
counters and the references of its former neighbours went down by their links
to it, and it was released once.
-/
structure Destroyed (before after : Graph ι σ) (target : ι) : Prop where
  unlinked : ∀ other, other ≠ target → ∀ side, ∀ edge ∈ ((after.brick other).sides side).edges,
        edge.link ≠ some target
  nb : ∀ other, other ≠ target → ∀ side, ((after.brick other).sides side).nb +
            countSide ((before.brick other).sides side) target =
          ((before.brick other).sides side).nb
  refcount : ∀ other, other ≠ target → (after.brick other).refcount +
          pgBrickLinksCountGet (before.brick other) target = (before.brick other).refcount
  released : (after.brick target).released = (before.brick target).released + 1

/-- The ledgers of the neighbours of a brick move with their links to it. -/
structure NeighbourLedger (target : ι) (before after : ι → Brick ι) : Prop where
  released : ∀ brick, (after brick).released = (before brick).released
  nb : ∀ other, other ≠ target → ∀ side, ((after other).sides side).nb +
            countSide ((before other).sides side) target = ((before other).sides side).nb +
            countSide ((after other).sides side) target
  refcount : ∀ other, other ≠ target →
      (after other).refcount + pgBrickLinksCountGet (before other) target =
        (before other).refcount + pgBrickLinksCountGet (after other) target

theorem NeighbourLedger.refl (target : ι) (bricks : ι → Brick ι) :
    NeighbourLedger target bricks bricks :=
  ⟨fun _ => rfl, fun _ _ _ => rfl, fun _ _ => rfl⟩

theorem NeighbourLedger.trans {target : ι} {before between after : ι → Brick ι}
    (first : NeighbourLedger target before between)
    (second : NeighbourLedger target between after) : NeighbourLedger target before after := by
  refine ⟨fun brick => ?_, fun other distinct side => ?_, fun other distinct => ?_⟩
  · rw [second.released, first.released]
  · have early := first.nb other distinct side
    have late := second.nb other distinct side
    omega
  · have early := first.refcount other distinct
    have late := second.refcount other distinct
    omega

theorem brick_pgBrickDecref_of_ne (graph : Graph ι σ) {target other : ι}
    (distinct : other ≠ target) : (pgBrickDecref graph target).brick other = graph.brick other := by
  unfold pgBrickDecref Graph.modify
  exact update_of_ne distinct _ _

theorem released_pgBrickDecref (graph : Graph ι σ) (target : ι) :
    ((pgBrickDecref graph target).brick target).released = if 1 < (graph.brick target).refcount then
        (graph.brick target).released
      else
        (graph.brick target).released + 1 := by
  unfold pgBrickDecref Graph.modify
  simp only [update_self]
  by_cases held : 1 < (graph.brick target).refcount
  · rw [if_pos held, if_pos (by omega)]
  · rw [if_neg held, if_neg (by omega)]

section Effect

variable [Fintype ι] {target : ι} {bricks : ι → Brick ι}

/-- Cutting one link of a brick moves the ledgers of its neighbour by one. -/
theorem ledger_cutLink (invariant : LinkInvariant bricks) {side : Side} {index : Nat} {paired : ι}
    {pairIndex : Nat} (linked : (bricks target).linkAt side index = some (paired, pairIndex)) :
    NeighbourLedger target bricks (cutLink bricks target side index paired pairIndex) := by
  have back := invariant.back linked
  have kept (other : ι) (notPaired : other ≠ paired) (notTarget : other ≠ target) :
      cutLink bricks target side index paired pairIndex other = bricks other := by
    unfold cutLink
    rw [update_of_ne notPaired, update_of_ne notTarget]
  have atPaired : cutLink bricks target side index paired pairIndex paired =
        detach (bricks paired) (pgFlipSide side) pairIndex := by
    unfold cutLink
    rw [update_self]
  refine ⟨fun brick => ?_, fun other distinct otherSide => ?_, fun other distinct => ?_⟩
  · unfold cutLink
    by_cases isPaired : brick = paired
    · subst isPaired
      rw [update_self, released_detach]
    · rw [update_of_ne isPaired]
      by_cases isTarget : brick = target
      · subst isTarget
        rw [update_self, released_detach]
      · rw [update_of_ne isTarget]
  · by_cases isPaired : other = paired
    · subst isPaired
      have counter := (invariant.counted other).nb_detach back otherSide
      have links := countSide_detach back otherSide target
      simp only [and_true] at links
      rw [atPaired]
      omega
    · rw [kept other isPaired distinct]
  · by_cases isPaired : other = paired
    · subst isPaired
      have links := linksCount_detach back target
      simp only [↓reduceIte] at links
      rw [atPaired, refcount_detach]
      omega
    · rw [kept other isPaired distinct]

/-- Cutting links of a brick moves the ledgers of its neighbours. -/
theorem ledger_cuts {before after : ι → Brick ι} (invariant : LinkInvariant before)
    (cuts : Relation.ReflTransGen (CutOf target) before after) :
    NeighbourLedger target before after := by
  induction cuts with
  | refl => exact .refl target before
  | tail earlier last ih =>
    obtain ⟨_, _, _, _, linked, rfl⟩ := last
    exact ih.trans (ledger_cutLink (invariant.cuts earlier) linked)

section

variable (invariant : LinkInvariant bricks)
  (unlinked : ∀ side index, (bricks target).linkAt side index = none)

include invariant unlinked

/-- Other bricks link to a brick through links that it has too. -/
theorem LinkInvariant.not_linked_to (other : ι) {side : Side} {edge : Edge ι}
    (stored : edge ∈ ((bricks other).sides side).edges) : edge.link ≠ some target := by
  intro isLink
  obtain ⟨otherSide, index, linked⟩ := (invariant.counted other).exists_linkAt stored isLink
  have back := invariant.back linked
  rw [unlinked] at back
  exact absurd back (by simp)

theorem LinkInvariant.countSide_eq_zero (other : ι) (side : Side) :
    countSide ((bricks other).sides side) target = 0 := by
  unfold countSide
  rw [List.countP_eq_zero]
  intro edge stored
  simpa using invariant.not_linked_to unlinked other stored

theorem LinkInvariant.linksCount_eq_zero (other : ι) :
    pgBrickLinksCountGet (bricks other) target = 0 := by
  have west := invariant.countSide_eq_zero unlinked other .west
  have east := invariant.countSide_eq_zero unlinked other .east
  simp only [Brick.sides] at west east
  unfold pgBrickLinksCountGet Brick.side
  cases (bricks other).type <;> simp [west, east]

/-- The only reference on a brick without links is that of the caller. -/
theorem LinkInvariant.refcount_of_unlinked : (bricks target).refcount = 1 := by
  have nothing : incoming bricks target = 0 :=
    Finset.sum_eq_zero (fun other _ => invariant.linksCount_eq_zero unlinked other)
  rw [invariant.referenced, nothing]
  rfl

end

/-- A brick with a link is referenced by the brick behind it. -/
theorem LinkInvariant.refcount_of_linked (invariant : LinkInvariant bricks)
    {side : Side} {index : Nat} {link : ι × Nat}
    (linked : (bricks target).linkAt side index = some link) : 1 < (bricks target).refcount :=
  invariant.one_lt_refcount (invariant.back linked)

variable {ops : BrickOps ι σ}

/-- Destroying a brick without an objection detaches and releases it. -/
theorem pgBrickDecref_destroyed {graph after : Graph ι σ} (invariant : LinkInvariant graph.brick)
    (cuts : Relation.ReflTransGen (CutOf target) graph.brick after.brick)
    (unlinked : ∀ side index, (after.brick target).linkAt side index = none) :
    Destroyed graph (pgBrickDecref after target) target := by
  have kept := invariant.cuts cuts
  have ledger := ledger_cuts invariant cuts
  refine ⟨fun other distinct side edge stored => ?_,
    fun other distinct side => ?_, fun other distinct => ?_, ?_⟩
  · rw [brick_pgBrickDecref_of_ne after distinct] at stored
    exact kept.not_linked_to unlinked other stored
  · have moved := ledger.nb other distinct side
    rw [kept.countSide_eq_zero unlinked] at moved
    rw [brick_pgBrickDecref_of_ne after distinct]
    exact moved
  · have moved := ledger.refcount other distinct
    rw [kept.linksCount_eq_zero unlinked] at moved
    rw [brick_pgBrickDecref_of_ne after distinct, moved]
    simp
  · rw [released_pgBrickDecref, kept.refcount_of_unlinked unlinked, ledger.released]
    simp

/-- Every state of a run is a graph that satisfies the link invariant. -/
theorem brickSystem_invariant {state : Except Abort (Graph ι σ)}
    (reachable : (brickSystem ops).Reachable state) :
    ∃ graph, state = .ok graph ∧ LinkInvariant graph.brick := by
  refine reachable.invariant ?_ ?_
  · intro start isInitial
    have started : (linkSystem ops).Reachable start := .initial isInitial
    exact linkSystem_invariant started
  · rintro before label after ⟨graph, rfl, invariant⟩ stepped
    cases label with
    | inl call =>
      obtain ⟨same, isGraph, rfl⟩ := stepped
      cases isGraph
      obtain ⟨outcome, after, returned, steps⟩ := call.exec_returns ops invariant
      exact ⟨after, by rw [returned]; rfl, invariant.steps steps⟩
    | inr priv =>
      obtain ⟨same, isGraph, rfl⟩ := stepped
      cases isGraph
      exact ⟨_, rfl, invariant⟩

/--
Destroying a brick of a reachable graph returns, and detaches and releases the
brick exactly when no brick that is notified of a breaking link sets an error.
-/
theorem brick_destroyed_iff {graph : Graph ι σ}
    (reachable : (brickSystem ops).Reachable (.ok graph)) (target : ι) :
    ∃ after, pgBrickDestroy ops graph (some target) = .ok after ∧ (Destroyed graph after target ↔
          QuietAlong ops target (graph.brick target).places graph) := by
  obtain ⟨same, isGraph, invariant⟩ := brickSystem_invariant reachable
  cases isGraph
  have ends := unlinkAlong_ends ops target (graph.brick target).places invariant
  unfold pgBrickDestroy
  rw [pgBrickUnlink_eq ops target invariant]
  generalize unlinkAlong ops target (graph.brick target).places graph = result at ends ⊢
  cases ends with
  | @all after quiet cuts unlinked =>
    refine ⟨_, rfl, fun _ => quiet, fun _ => ?_⟩
    refine pgBrickDecref_destroyed invariant cuts ?_
    intro side index
    cases linked : (graph.brick target).linkAt side index with
    | none => exact linkAt_cuts invariant cuts linked
    | some link => exact unlinked _ ((invariant.counted target).mem_places linked)
  | @stopped failure after objects cuts left =>
    refine ⟨_, rfl, fun destroyed => ?_, fun quiet => absurd quiet objects⟩
    obtain ⟨side, index, link, linked⟩ := left
    -- the link that is left holds a reference on the brick
    have held := (invariant.cuts cuts).refcount_of_linked linked
    have released := destroyed.released
    rw [released_pgBrickDecref, if_pos held, (ledger_cuts invariant cuts).released] at released
    omega

end Effect

/-- The small program after its bricks were linked. -/
def pairJoined : Graph Bool Unit :=
  pairGraph.after (quietOps Bool) (.link (some false) (some true))

/-- The small program can destroy one of its bricks. -/
theorem brick_destroyed_iff_pair :
    (brickSystem (quietOps Bool)).Reachable (.ok pairJoined) ∧
      (pairJoined.brick false).east.nb = 1 ∧
      ∃ after, pgBrickDestroy (quietOps Bool) pairJoined (some true) = .ok after ∧
          Destroyed pairJoined after true := by
  have started : (brickSystem (quietOps Bool)).Reachable (.ok pairGraph) := by
    refine .initial ⟨pairGraph, rfl, fun which => ?_⟩
    refine ⟨nopRegistry, some "nop", some (pairConfig which), ?_⟩
    cases which <;> rfl
  have linked : (brickSystem (quietOps Bool)).Reachable (.ok pairJoined) :=
    .step (.inl (.link (some false) (some true))) started ⟨pairGraph, rfl, rfl⟩
  obtain ⟨after, destroyed, detached⟩ := brick_destroyed_iff linked true
  exact ⟨linked, rfl, after, destroyed,
    detached.mpr (quietAlong_of_silent (fun _ _ _ _ => rfl) _ _ _)⟩

end PacketGraph
