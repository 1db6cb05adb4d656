import PacketGraph.Brick.LocalInvariant
import PacketGraph.Brick.LinkRuns

namespace PacketGraph

/-!
# Bricks of one kind in a graph of any bricks

A graph under study has bricks of one kind, whose private state is modelled,
among bricks of other kinds, whose callbacks are arbitrary.  A property of the
bricks of that kind holds in a whole run when linking calls and the operations
of the kind keep it at a single brick.
-/

variable {ι σ τ : Type}

/-- The private state of a brick of the kind under study, or of another. -/
inductive Node (σ τ : Type) where
  | own (state : σ)
  | other (state : τ)

/-- The `unlink_notify` callbacks of a graph. -/
def nodeOps (own : BrickOps ι σ) (others : BrickOps ι τ) : BrickOps ι (Node σ τ) where
  unlinkNotify := fun brick node side index => match node with
    | .own state =>
      let answer := own.unlinkNotify brick state side index
      (.own answer.1, answer.2)
    | .other state =>
      let answer := others.unlinkNotify brick state side index
      (.other answer.1, answer.2)

/-- A property of the bricks of the kind, as a property of nodes. -/
def OnOwn (property : Brick ι → σ → Prop) (brick : Brick ι) (node : Node σ τ) : Prop :=
  ∀ state, node = .own state → property brick state

variable {property : Brick ι → σ → Prop}

/-- A property kept by attaching a link, among other bricks. -/
theorem KeptByAttach.onOwn (kept : KeptByAttach property) :
    KeptByAttach (fun brick (node : Node σ τ) => OnOwn property brick node) := by
  intro brick node side index target pairIndex holds free state isOwn
  exact kept _ _ _ _ _ _ (holds state isOwn) free

variable {own : BrickOps ι σ}

/-- A property kept by breaking a link, among other bricks. -/
theorem KeptByUnlink.onOwn (kept : KeptByUnlink own property) (others : BrickOps ι τ) :
    KeptByUnlink (nodeOps own others) (OnOwn property) := by
  constructor
  · intro brick node side index link holds linked state isOwn
    cases node with
    | other otherState => exact absurd isOwn (by simp [nodeOps])
    | own before =>
      rw [← Node.own.inj isOwn]
      exact kept.notified (holds before rfl) linked
  · intro brick node side index link holds linked quiet state isOwn
    cases node with
    | other otherState => exact absurd isOwn (by simp [nodeOps])
    | own before =>
      rw [← Node.own.inj isOwn]
      exact kept.detached (holds before rfl) linked quiet

variable [DecidableEq ι] [Fintype ι]

/-- The links of a graph are sound and its bricks of the kind have a property. -/
structure NodeGraph (property : Brick ι → σ → Prop) (graph : Graph ι (Node σ τ)) : Prop where
  links : LinkInvariant graph.brick
  nodes : Everywhere (OnOwn property) graph

variable {graph : Graph ι (Node σ τ)} {outcome : Option PgError} {after : Graph ι (Node σ τ)}

/-- A linking call keeps what its elementary changes keep. -/
theorem NodeGraph.exec {others : BrickOps ι τ} (holds : NodeGraph property graph)
    (attach_ok : KeptByAttach property) (unlink_ok : KeptByUnlink own property) {call : LinkCall ι}
    (executed : call.exec (nodeOps own others) graph = .ok (outcome, after)) :
    NodeGraph property after := by
  obtain ⟨links, nodes⟩ :=
    holds.nodes.exec attach_ok.onOwn (unlink_ok.onOwn others) holds.links executed
  exact ⟨links, nodes⟩

/-- A call that only links keeps what attaching a link keeps. -/
theorem NodeGraph.joins {result : CallResult ι (Node σ τ)} (holds : NodeGraph property graph)
    (attach_ok : KeptByAttach property) (returns : ReturnsBySteps JoinStep graph result)
    (executed : result = .ok (outcome, after)) : NodeGraph property after := by
  obtain ⟨_, left, returned, steps⟩ := returns
  rw [executed] at returned
  simp only [Except.ok.injEq, Prod.mk.injEq] at returned
  rw [returned.2]
  exact ⟨holds.links.joinSteps steps, holds.nodes.joinSteps attach_ok.onOwn steps⟩

/-- An operation on one brick changes the state of that brick only. -/
theorem NodeGraph.update (holds : NodeGraph property graph) {target : ι} {before after : σ}
    (isOwn : graph.priv target = .own before)
    (kept : WellCounted (graph.brick target) → property (graph.brick target) before → property
        (graph.brick target) after) :
    NodeGraph property { graph with
        priv := Function.update graph.priv target (.own after) } := by
  refine ⟨holds.links, ?_⟩
  intro brick state isState
  by_cases here : brick = target
  · subst here
    simp only [Function.update_self, Node.own.injEq] at isState
    rw [← isState]
    exact kept (holds.links.counted brick) (holds.nodes brick before isOwn)
  · simp only [Function.update_of_ne here] at isState
    exact holds.nodes brick state isState

end PacketGraph
