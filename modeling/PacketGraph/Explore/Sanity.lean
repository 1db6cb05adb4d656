import PacketGraph.Explore.Component

namespace PacketGraph

open List Option TransitionSystem

/-!
# The sanity check of a graph

`pg_graph_sanity` explores a new graph from some brick and compares the number
of bricks.  Two sets of bricks of the same size need not be the same set, so
the check is exact only for graphs that cannot be mistaken for a component of
their size.
-/

section Model

variable {ι : Type} [DecidableEq ι]

/-- `graph_pop`. -/
def graphPop (polls : ι → Bool) (graph : PgGraph ι) (brick : ι) : PgGraph ι :=
  { graph with
    all := graph.all.erase brick
    pollable :=
      if polls brick then graph.pollable.erase brick else graph.pollable }

/-- `pg_graph_unsafe_pop`, with the brick that it returns. -/
def pgGraphUnsafePop (bricks : ι → Brick ι) (polls : ι → Bool) (graph : PgGraph ι)
    (brickName : String) : Option ι × PgGraph ι :=
  match pgGraphGet bricks graph brickName with
  | none => (none, graph)
  | some brick => (some brick, graphPop polls graph brick)

/-- `pg_graph_explore`. -/
def pgGraphExplore (bricks : ι → Brick ι) (polls : ι → Bool) (first : List ι → Option ι)
    (rounds : Nat) (graph : PgGraph ι) (brickName : Option String) :
    Option (Option PgError × PgGraph ι) :=
  match brickName with
  | none => pgGraphExplorePtr bricks polls first rounds graph none
  | some brickName =>
    match pgGraphGet bricks graph brickName with
    | none => some (some (pgErrorNew ("brick " ++ brickName ++ " not found")), graph)
    | some brick => pgGraphExplorePtr bricks polls first rounds graph (some brick)

/-- `pg_graph_sanity`; it returns zero without an error. -/
def pgGraphSanity (bricks : ι → Brick ι) (polls : ι → Bool) (first : List ι → Option ι)
    (rounds : Nat) (graph : PgGraph ι) : Option (Option PgError) :=
  match getAnyBrick first graph with
  | none => some none
  | some brick =>
    match pgGraphExplorePtr bricks polls first rounds
        { name := "-", all := [], pollable := [] } (some brick)
    with
    | none => none
    | some (some failure, _) => some (some failure)
    | some (none, explored) =>
      if graph.all.length < explored.all.length then
        some (some (pgErrorNew "Graph not fully explored"))
      else if explored.all.length < graph.all.length then
        some (some (pgErrorNew "Graph looks splitted"))
      else
        some none

end Model

section Picking

variable {ι : Type}

/-- The first brick of a table that is not empty is a brick of the table. -/
def Chooses (first : List ι → Option ι) : Prop :=
  ∀ list, list ≠ [] → ∃ brick ∈ list, first list = some brick

theorem chooses_head : Chooses (List.head? : List ι → Option ι) :=
  fun list notEmpty => ⟨list.head notEmpty, head_mem notEmpty, head?_eq_some_head notEmpty⟩

/-- A brick that `get_any_brick` may return. -/
def Pickable (graph : PgGraph ι) (brick : ι) : Prop :=
  match graph.pollable with
  | polled :: _ => brick = polled
  | [] => brick ∈ graph.all

variable {graph : PgGraph ι}

/-- A brick that may be picked is picked for some order of the table. -/
theorem Pickable.chosen [DecidableEq ι] {brick : ι} (pickable : Pickable graph brick) :
    ∃ first, Chooses first ∧ getAnyBrick first graph = some brick := by
  unfold Pickable at pickable
  unfold getAnyBrick
  cases isPolled : graph.pollable with
  | cons polled rest =>
    rw [isPolled] at pickable
    exact ⟨List.head?, chooses_head, by rw [pickable]⟩
  | nil =>
    rw [isPolled] at pickable
    refine ⟨fun list => if brick ∈ list then some brick else list.head?,
      fun list notEmpty => ?_, ?_⟩
    · by_cases member : brick ∈ list
      · exact ⟨brick, member, if_pos member⟩
      · refine ⟨list.head notEmpty, head_mem notEmpty, ?_⟩
        dsimp only
        rw [if_neg member]
        exact head?_eq_some_head notEmpty
    · dsimp only
      rw [if_neg (ne_nil_of_mem pickable), if_pos pickable]

/-- A brick is picked from a graph that is not empty. -/
theorem exists_picked {first : List ι → Option ι} (chooses : Chooses first)
    (notEmpty : graph.all ≠ []) :
    ∃ brick, getAnyBrick first graph = some brick ∧ Pickable graph brick := by
  unfold getAnyBrick Pickable
  cases isPolled : graph.pollable with
  | cons polled rest => exact ⟨polled, rfl, rfl⟩
  | nil =>
    obtain ⟨brick, member, isFirst⟩ := chooses graph.all notEmpty
    dsimp only
    rw [if_neg notEmpty]
    exact ⟨brick, isFirst, member⟩

end Picking

section Names

variable {ι : Type}

theorem name_attach (brick : Brick ι) (side : Side) (index : Nat) (target : ι) (pairIndex : Nat) :
    (attach brick side index target pairIndex).name = brick.name := by
  unfold attach linkNotify modifyNb modifyEdge Brick.setSide
  cases kind : brick.type <;> cases side <;> simp

theorem name_detach (brick : Brick ι) (side : Side) (index : Nat) :
    (detach brick side index).name = brick.name := by
  unfold detach modifyNb modifyEdge Brick.setSide
  cases kind : brick.type <;> cases side <;> simp

variable {σ : Type} [DecidableEq ι] {ops : BrickOps ι σ}

theorem name_joinLink (bricks : ι → Brick ι)
    (west : ι) (westIndex : Nat) (east : ι) (eastIndex : Nat) (brick : ι) :
    (joinLink bricks west westIndex east eastIndex brick).name = (bricks brick).name :=
  apply_joinLink Brick.name name_attach bricks west westIndex east eastIndex brick

theorem name_cutLink (bricks : ι → Brick ι)
    (target : ι) (side : Side) (index : Nat) (paired : ι) (pairIndex : Nat) (brick : ι) :
    (cutLink bricks target side index paired pairIndex brick).name = (bricks brick).name :=
  apply_cutLink Brick.name name_detach bricks target side index paired pairIndex brick

/-- Linking does not rename a brick. -/
theorem names_of_steps {graph left : Graph ι σ}
    (steps : Relation.ReflTransGen (LinkStep ops) graph left) (brick : ι) :
    (left.brick brick).name = (graph.brick brick).name :=
  apply_of_steps steps Brick.name name_attach name_detach brick

end Names

section Order

variable {ι : Type} {polls : ι → Bool} {graph : PgGraph ι} {brick : ι}

/-- A table of distinct bricks and the list of the pollable ones among them. -/
structure TableInOrder (polls : ι → Bool) (graph : PgGraph ι) : Prop where
  distinct : graph.all.Nodup
  polled : ∀ brick, brick ∈ graph.pollable ↔ brick ∈ graph.all ∧ polls brick = true
  polledOnce : graph.pollable.Nodup

/-- A brick that is pushed stands in front of both lists. -/
theorem TableInOrder.cons (order : TableInOrder polls graph) (notIn : brick ∉ graph.all) :
    TableInOrder polls { graph with
        all := brick :: graph.all
        pollable :=
          if polls brick then brick :: graph.pollable
          else graph.pollable } := by
  refine ⟨nodup_cons.mpr ⟨notIn, order.distinct⟩, ?_, ?_⟩
  · intro other
    cases isPolled : polls brick with
    | true =>
      simp only [if_true, mem_cons, order.polled]
      constructor
      · rintro (rfl | old)
        · exact ⟨.inl rfl, isPolled⟩
        · exact ⟨.inr old.1, old.2⟩
      · rintro ⟨rfl | old, polled⟩
        · exact .inl rfl
        · exact .inr ⟨old, polled⟩
    | false =>
      simp only [Bool.false_eq_true, if_false, mem_cons, order.polled]
      constructor
      · exact fun old => ⟨.inr old.1, old.2⟩
      · rintro ⟨rfl | old, polled⟩
        · rw [isPolled] at polled
          cases polled
        · exact ⟨old, polled⟩
  · cases isPolled : polls brick with
    | true =>
      exact nodup_cons.mpr ⟨fun member => notIn ((order.polled brick).mp member).1,
          order.polledOnce⟩
    | false => exact order.polledOnce

/-- Popping a brick takes it from both lists. -/
theorem TableInOrder.pop [DecidableEq ι] (order : TableInOrder polls graph)
    (brick : ι) : TableInOrder polls (graphPop polls graph brick) := by
  refine ⟨order.distinct.erase _, ?_, ?_⟩
  · intro other
    simp only [graphPop, order.distinct.mem_erase_iff]
    cases isPolled : polls brick with
    | true => simp only [if_true, order.polledOnce.mem_erase_iff, order.polled, and_assoc]
    | false =>
      simp only [Bool.false_eq_true, if_false, order.polled]
      constructor
      · rintro ⟨member, polled⟩
        refine ⟨⟨?_, member⟩, polled⟩
        rintro rfl
        rw [isPolled] at polled
        cases polled
      · rintro ⟨⟨_, member⟩, polled⟩
        exact ⟨member, polled⟩
  · simp only [graphPop]
    split
    · exact order.polledOnce.erase _
    · exact order.polledOnce

end Order

section Runs

variable {ι σ : Type} [DecidableEq ι]

/-- The bricks of a program with one graph. -/
structure GraphWorld (ι σ : Type) where
  links : Graph ι σ
  graph : PgGraph ι

/-- One call on the graph or on the links of the bricks. -/
inductive GraphCall (ι : Type) where
  | push (brick : ι)
  | unsafePop (brickName : String)
  | explore (brickName : Option String) (first : List ι → Option ι)
  | links (call : LinkCall ι)

/-- What a call does. -/
def GraphStep [Fintype ι] (ops : BrickOps ι σ) (polls : ι → Bool) (before : GraphWorld ι σ)
    (call : GraphCall ι) (after : GraphWorld ι σ) : Prop :=
  match call with
  | .push brick =>
    after = { before with graph := (pgGraphPush before.links.brick polls before.graph brick).2 }
  | .unsafePop brickName =>
    after = { before with
        graph :=
          (pgGraphUnsafePop before.links.brick polls before.graph brickName).2 }
  | .explore brickName first =>
    Chooses first ∧ ∃ outcome graph, pgGraphExplore before.links.brick polls first (Fintype.card ι)
            before.graph brickName = some (outcome, graph) ∧ after = { before with graph := graph }
  | .links call =>
    ∃ outcome links, call.exec ops before.links = .ok (outcome, links) ∧
        after = { before with links := links }

/-- The runs of a program whose bricks have distinct names. -/
def graphSystem [Fintype ι] (ops : BrickOps ι σ) (polls : ι → Bool) :
    System (GraphWorld ι σ) (GraphCall ι) where
  initial := fun world => (∀ brick, ∃ registry name config, pgBrickNew registry name config =
          .ok (world.links.brick brick, world.links.priv brick)) ∧
      Function.Injective (fun brick => (world.links.brick brick).name) ∧
      ∃ name, world.graph = { name := name, all := [], pollable := [] }
  step := GraphStep ops polls

/-- What holds of a graph and its bricks. -/
structure GraphSound [Fintype ι] (polls : ι → Bool) (world : GraphWorld ι σ) : Prop where
  invariant : LinkInvariant world.links.brick
  names : Function.Injective (fun brick => (world.links.brick brick).name)
  distinct : world.graph.all.Nodup
  polled : ∀ brick, brick ∈ world.graph.pollable ↔ brick ∈ world.graph.all ∧ polls brick = true
  polledOnce : world.graph.pollable.Nodup

variable [Fintype ι] {ops : BrickOps ι σ} {polls : ι → Bool}
variable {before after world : GraphWorld ι σ}

theorem GraphSound.inOrder (sound : GraphSound polls world) : TableInOrder polls world.graph :=
  ⟨sound.distinct, sound.polled, sound.polledOnce⟩

variable {graph : PgGraph ι}

/-- A graph whose lists are in order is sound beside the same bricks. -/
theorem GraphSound.withGraph (sound : GraphSound polls before) (order : TableInOrder polls graph) :
    GraphSound polls { before with graph := graph } :=
  ⟨sound.invariant, sound.names, order.distinct, order.polled, order.polledOnce⟩

/-- Pushing a brick keeps a graph sound. -/
theorem GraphSound.push (sound : GraphSound polls before) (brick : ι) :
    GraphSound polls { before with
        graph := (pgGraphPush before.links.brick polls before.graph brick).2 } := by
  refine sound.withGraph ?_
  unfold pgGraphPush
  split
  · exact sound.inOrder
  · rename_i fresh
    rw [pgGraphGet_isSome] at fresh
    exact sound.inOrder.cons (fun member => fresh (mem_map_of_mem member))

/-- Popping a brick keeps a graph sound. -/
theorem GraphSound.pop (sound : GraphSound polls before) (brickName : String) :
    GraphSound polls { before with
        graph :=
          (pgGraphUnsafePop before.links.brick polls before.graph brickName).2 } := by
  refine sound.withGraph ?_
  unfold pgGraphUnsafePop
  split
  · exact sound.inOrder
  · exact sound.inOrder.pop _

theorem GraphSound.distinctNames (sound : GraphSound polls world) (brick : ι) :
    DistinctNames world.links.brick brick :=
  fun _ _ _ _ sameName => sound.names sameName

/-- Exploring keeps a graph sound. -/
theorem GraphSound.explored (sound : GraphSound polls before) (first : List ι → Option ι)
    (brick : Option ι) {outcome : Option PgError}
    (returned : pgGraphExplorePtr before.links.brick polls first (Fintype.card ι) before.graph brick
        = some (outcome, graph)) : GraphSound polls { before with graph := graph } := by
  cases isBrick : brick.or (getAnyBrick first before.graph) with
  | none =>
    unfold pgGraphExplorePtr at returned
    rw [isBrick] at returned
    cases returned
    exact sound
  | some start =>
    have sameCall : pgGraphExplorePtr before.links.brick polls first (Fintype.card ι)
            before.graph (some start) = some (outcome, graph) := by
      rw [← returned]
      unfold pgGraphExplorePtr
      rw [isBrick, some_or]
    obtain ⟨after, explored, holds⟩ :=
      pgGraphExplorePtr_of_distinct sound.invariant polls first
        before.graph (Nat.le_refl _) (sound.distinctNames start)
    rw [sameCall, some.injEq, Prod.mk.injEq] at explored
    rw [explored.2]
    exact ⟨sound.invariant, sound.names, holds.distinct, fun other => (holds.polled other).trans
        (and_congr_left' (holds.mem other).symm), holds.polledOnce⟩

theorem graphSound_of_reachable (reachable : (graphSystem ops polls).Reachable world) :
    GraphSound polls world := by
  refine reachable.invariant ?_ ?_
  · rintro start ⟨made, names, name, isGraph⟩
    refine ⟨linkInvariant_of_fresh (fun brick => ?_), names, ?_, ?_, ?_⟩
    · obtain ⟨registry, name, config, returned⟩ := made brick
      exact pgBrickNew_fresh returned
    · rw [isGraph]
      exact nodup_nil
    · simp [isGraph]
    · rw [isGraph]
      exact nodup_nil
  · intro before call after sound step
    cases call with
    | push brick =>
      cases step
      exact sound.push brick
    | unsafePop brickName =>
      cases step
      exact sound.pop brickName
    | explore brickName first =>
      obtain ⟨_, outcome, graph, returned, rfl⟩ := step
      unfold pgGraphExplore at returned
      split at returned
      · exact sound.explored first none returned
      · split at returned
        · cases returned
          exact sound
        · exact sound.explored first _ returned
    | links call =>
      obtain ⟨outcome, links, returned, rfl⟩ := step
      obtain ⟨_, left, sameReturn, steps⟩ := call.exec_returns ops sound.invariant
      rw [returned, Except.ok.injEq, Prod.mk.injEq] at sameReturn
      rw [sameReturn.2]
      refine ⟨sound.invariant.steps steps, ?_, sound.distinct, sound.polled, sound.polledOnce⟩
      intro one other sameName
      simp only [names_of_steps steps] at sameName
      exact sound.names sameName

/-- The bricks of a graph are one connected component. -/
def IsComponent (bricks : ι → Brick ι) (list : List ι) : Prop :=
  ∃ brick, ∀ other, other ∈ list ↔ Connected bricks brick other

/--
No brick that may be picked has a component of the size of the graph that goes
beyond the graph.
-/
def Unmistakable (bricks : ι → Brick ι) (graph : PgGraph ι) : Prop :=
  ∀ brick, Pickable graph brick →
    Set.ncard {other | Connected bricks brick other} = graph.all.length →
    ∀ other, Connected bricks brick other → other ∈ graph.all

/-- The sanity check tells whether a graph is a component. -/
def SanityExact (bricks : ι → Brick ι) (polls : ι → Bool) (rounds : Nat) (graph : PgGraph ι)
    : Prop :=
  ∀ first, Chooses first → ∃ verdict, pgGraphSanity bricks polls first rounds graph = some verdict ∧
        (verdict = none ↔ IsComponent bricks graph.all)

variable {brick : ι}

/-- The sanity check compares sizes. -/
theorem GraphSound.sanity (sound : GraphSound polls world) {first : List ι → Option ι}
    {rounds : Nat} (enough : Fintype.card ι ≤ rounds)
    (picked : getAnyBrick first world.graph = some brick) :
    ∃ verdict, pgGraphSanity world.links.brick polls first rounds world.graph = some verdict ∧
        (verdict = none ↔ Set.ncard {other | Connected world.links.brick brick other} =
            world.graph.all.length) := by
  obtain ⟨after, explored, holds⟩ :=
    pgGraphExplorePtr_of_distinct sound.invariant polls first
      { name := "-", all := [], pollable := [] } enough (sound.distinctNames brick)
  have isSize : Set.ncard {other | Connected world.links.brick brick other} = after.all.length := by
    have isSet : {other | Connected world.links.brick brick other} =
          (after.all.toFinset : Set ι) := by
      ext other
      simp [holds.mem]
    rw [isSet, Set.ncard_coe_finset, toFinset_card_of_nodup holds.distinct]
  unfold pgGraphSanity
  rw [picked]
  dsimp only
  rw [explored]
  dsimp only
  rw [isSize]
  rcases Nat.lt_trichotomy world.graph.all.length after.all.length with
    larger | same | smaller
  · rw [if_pos larger]
    exact ⟨_, rfl, by simp [Nat.ne_of_gt larger]⟩
  · rw [if_neg (Nat.not_lt.mpr (Nat.le_of_eq same.symm)),
      if_neg (Nat.not_lt.mpr (Nat.le_of_eq same))]
    exact ⟨_, rfl, by simp [same]⟩
  · rw [if_neg (Nat.not_lt.mpr (Nat.le_of_lt smaller)), if_pos smaller]
    exact ⟨_, rfl, by simp [Nat.ne_of_lt smaller]⟩

theorem GraphSound.pickable_mem (sound : GraphSound polls world)
    (pickable : Pickable world.graph brick) : brick ∈ world.graph.all := by
  unfold Pickable at pickable
  split at pickable
  · rename_i polled rest isPolled
    refine ((sound.polled brick).mp ?_).1
    rw [isPolled, pickable]
    exact mem_cons_self
  · exact pickable

/-- The component of each of its bricks is the same. -/
theorem Connected.iff {bricks : ι → Brick ι} (invariant : LinkInvariant bricks) {other : ι}
    (connected : Connected bricks brick other) (last : ι) :
    Connected bricks brick last ↔ Connected bricks other last := by
  have adjacentSymm : Std.Symm (Adjacent bricks) := ⟨fun _ _ adjacent => adjacent.symm invariant⟩
  have back : Connected bricks other brick := Relation.ReflTransGen.stdSymm.symm _ _ connected
  exact ⟨back.trans, connected.trans⟩

/--
The sanity check is exact, whichever brick is picked, just for the graphs that
cannot be mistaken for a component of their size.
-/
theorem pg_graph_sanity_exact_iff (reachable : (graphSystem ops polls).Reachable world)
    (notEmpty : world.graph.all ≠ []) {rounds : Nat} (enough : Fintype.card ι ≤ rounds) :
    SanityExact world.links.brick polls rounds world.graph ↔
      Unmistakable world.links.brick world.graph := by
  have sound := graphSound_of_reachable reachable
  constructor
  · intro exact brick pickable sameSize other connected
    obtain ⟨first, chooses, picked⟩ := pickable.chosen
    obtain ⟨verdict, isVerdict, isExact⟩ := exact first chooses
    obtain ⟨_, sameVerdict, bySize⟩ := sound.sanity enough picked
    rw [isVerdict, some.injEq] at sameVerdict
    obtain ⟨root, isComponent⟩ := isExact.mp (sameVerdict ▸ bySize.mpr sameSize)
    have rooted : Connected world.links.brick root brick :=
      (isComponent brick).mp (sound.pickable_mem pickable)
    exact (isComponent other).mpr ((rooted.iff sound.invariant other).mpr connected)
  · intro unmistakable first chooses
    obtain ⟨brick, picked, pickable⟩ := exists_picked chooses notEmpty
    obtain ⟨verdict, isVerdict, bySize⟩ := sound.sanity enough picked
    refine ⟨verdict, isVerdict, bySize.trans ⟨fun sameSize => ?_, ?_⟩⟩
    · -- a component of this size inside the graph is the whole graph
      have inside := unmistakable brick pickable sameSize
      refine ⟨brick, fun other => ⟨fun member => ?_, inside other⟩⟩
      have isAll : {other | Connected world.links.brick brick other} =
            (world.graph.all.toFinset : Set ι) := by
        refine Set.eq_of_subset_of_ncard_le ?_ ?_ (Set.toFinite _)
        · intro one connected
          exact mem_toFinset.mpr (inside one connected)
        · rw [Set.ncard_coe_finset, toFinset_card_of_nodup sound.distinct, sameSize]
      have isMember : other ∈ (world.graph.all.toFinset : Set ι) := mem_toFinset.mpr member
      rw [← isAll] at isMember
      exact isMember
    · rintro ⟨root, isComponent⟩
      have rooted : Connected world.links.brick root brick :=
        (isComponent brick).mp (sound.pickable_mem pickable)
      have isAll : {other | Connected world.links.brick brick other} =
            (world.graph.all.toFinset : Set ι) := by
        ext other
        rw [Set.mem_ofPred_eq, ← rooted.iff sound.invariant other, ← isComponent other]
        simp
      rw [isAll, Set.ncard_coe_finset, toFinset_card_of_nodup sound.distinct]

end Runs

/-- The small program with both of its linked bricks in a graph. -/
def pairWorld : GraphWorld Bool Unit where
  links := pairLinked
  graph := { name := "g", all := [true, false], pollable := [] }

/-- The sanity check is exact for the graph of two linked bricks. -/
theorem pg_graph_sanity_exact_iff_pair :
    (graphSystem (quietOps Bool) (fun _ => false)).Reachable pairWorld ∧
      SanityExact pairWorld.links.brick (fun _ => false) 2 pairWorld.graph := by
  have started : (graphSystem (quietOps Bool) (fun _ => false)).Reachable
        { links := pairGraph
          graph := { name := "g", all := [], pollable := [] } } := by
    refine .initial ⟨fun which => ?_, ?_, "g", rfl⟩
    · refine ⟨nopRegistry, some "nop", some (pairConfig which), ?_⟩
      cases which <;> rfl
    · decide
  have linked : (graphSystem (quietOps Bool) (fun _ => false)).Reachable
        { links := pairLinked
          graph := { name := "g", all := [], pollable := [] } } :=
    .step (.links (.link (some false) (some true))) started ⟨none, pairLinked, rfl, rfl⟩
  have one : (graphSystem (quietOps Bool) (fun _ => false)).Reachable
        { links := pairLinked
          graph := { name := "g", all := [false], pollable := [] } } :=
    .step (.push false) linked rfl
  have both : (graphSystem (quietOps Bool) (fun _ => false)).Reachable pairWorld :=
    .step (.push true) one rfl
  refine ⟨both, (pg_graph_sanity_exact_iff both (by decide)
    (show Fintype.card Bool ≤ 2 by decide)).mpr ?_⟩
  intro _ _ _ other _
  cases other <;> decide

/-- A registry that knows one kind of brick. -/
def trioRegistry : List (OpsEntry (Fin 3) Unit) :=
  [{ name := "nop", stateSize := 1, init := fun _ _ => .ok () }]

/-- Three dipoles. -/
def trioConfig (brick : Fin 3) : BrickConfig where
  name := (["a", "b", "c"][brick.val]?).getD ""
  westMax := 1
  eastMax := 1
  type := .dipole

/-- The three bricks before any call. -/
def trioGraph : Graph (Fin 3) Unit where
  brick := fun brick => { blankBrick (Fin 3) (trioConfig brick) with
      west := { max := 1, nb := 0, edges := [.empty] }
      east := { max := 1, nb := 0, edges := [.empty] } }
  priv := fun _ => ()

/-- The first brick is linked to the second. -/
def trioLinked : Graph (Fin 3) Unit :=
  trioGraph.after (quietOps (Fin 3)) (.link (some 0) (some 1))

/-- The first and the third brick are pushed into a graph. -/
def trioWorld : GraphWorld (Fin 3) Unit where
  links := trioLinked
  graph := { name := "g", all := [2, 0], pollable := [] }

/--
A graph of two bricks that are not connected passes the sanity check if one of
them is picked and fails it if the other one is.
-/
theorem sanity_passes_mixed_graph :
    (graphSystem (quietOps (Fin 3)) (fun _ => false)).Reachable trioWorld ∧
      ¬ IsComponent trioWorld.links.brick trioWorld.graph.all ∧
      pgGraphSanity trioWorld.links.brick (fun _ => false) List.getLast? 3 trioWorld.graph =
        some none ∧
      pgGraphSanity trioWorld.links.brick (fun _ => false) List.head? 3 trioWorld.graph =
        some (some (pgErrorNew "Graph looks splitted")) := by
  have started : (graphSystem (quietOps (Fin 3)) (fun _ => false)).Reachable
        { links := trioGraph
          graph := { name := "g", all := [], pollable := [] } } := by
    refine .initial ⟨fun brick => ?_, ?_, "g", rfl⟩
    · refine ⟨trioRegistry, some "nop", some (trioConfig brick), ?_⟩
      rfl
    · decide
  have linked : (graphSystem (quietOps (Fin 3)) (fun _ => false)).Reachable
        { links := trioLinked
          graph := { name := "g", all := [], pollable := [] } } :=
    .step (.links (.link (some 0) (some 1))) started ⟨none, trioLinked, rfl, rfl⟩
  have one : (graphSystem (quietOps (Fin 3)) (fun _ => false)).Reachable
        { links := trioLinked
          graph := { name := "g", all := [0], pollable := [] } } :=
    .step (.push 0) linked rfl
  have both : (graphSystem (quietOps (Fin 3)) (fun _ => false)).Reachable trioWorld :=
    .step (.push 2) one rfl
  refine ⟨both, ?_, by decide +kernel, by decide +kernel⟩
  rintro ⟨brick, isComponent⟩
  have first : Connected trioWorld.links.brick brick 0 := (isComponent 0).mp (by decide)
  have second : Connected trioWorld.links.brick brick 1 := first.tail ⟨.east, 0, 0, rfl⟩
  exact absurd ((isComponent 1).mpr second) (by decide)

end PacketGraph
