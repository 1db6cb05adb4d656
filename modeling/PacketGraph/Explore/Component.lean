import PacketGraph.Brick.LinkRuns
import PacketGraph.Explore.Edges
import PacketGraph.Lib.Search

namespace PacketGraph

open List Option Search TransitionSystem

/-!
# Exploring the bricks that are connected

`pg_graph_explore_ptr` fills a graph with the bricks that it finds by walking
links.  A graph keeps its bricks by name, so it can hold a component only if
the names in it are distinct.

Bricks whose names are equal are one key of the hash table.  The order of the
table is the one of GLib; where it matters, the first brick of a table is a
parameter.
-/

section Model

variable {ι : Type}

/-- `struct pg_graph`: the bricks in the table and those that are polled. -/
structure PgGraph (ι : Type) where
  name : String
  all : List ι
  pollable : List ι
  deriving Repr, DecidableEq

/-- `empty_graph`. -/
def emptyGraph (graph : PgGraph ι) : PgGraph ι :=
  { graph with all := [], pollable := [] }

/-- `pg_graph_get`. -/
def pgGraphGet (bricks : ι → Brick ι) (graph : PgGraph ι) (brickName : String) : Option ι :=
  graph.all.find? (fun brick => (bricks brick).name = brickName)

/-- `pg_graph_push`; `polls` tells which bricks have a poll callback. -/
def pgGraphPush (bricks : ι → Brick ι) (polls : ι → Bool) (graph : PgGraph ι) (brick : ι) :
    Option PgError × PgGraph ι :=
  if (pgGraphGet bricks graph (bricks brick).name).isSome then
    (some (pgErrorNew ("A brick named " ++ (bricks brick).name ++ " already in graph " ++
        graph.name)), graph)
  else
    (none, { graph with
        all := brick :: graph.all
        pollable :=
          if polls brick then brick :: graph.pollable else graph.pollable })

/-- Push the bricks of a list until one cannot be pushed. -/
def pushAll (bricks : ι → Brick ι) (polls : ι → Bool) (graph : PgGraph ι) :
    List ι → Option PgError × PgGraph ι
  | [] => (none, graph)
  | brick :: rest =>
    match pgGraphPush bricks polls graph brick with
    | (some failure, graph) => (some failure, graph)
    | (none, graph) => pushAll bricks polls graph rest

/-- `get_any_brick`. -/
def getAnyBrick (first : List ι → Option ι) (graph : PgGraph ι) : Option ι :=
  match graph.pollable with
  | brick :: _ => some brick
  | [] => if graph.all = [] then none else first graph.all

variable [DecidableEq ι]

/-- The body of the loop of `explore_add_neighbours`. -/
def addNeighbour (done todo : List ι) (edge : Edge ι) : List ι :=
  match edge.link with
  | none => todo
  | some neighbour => if neighbour ∈ todo ∨ neighbour ∈ done then todo else neighbour :: todo

/-- `explore_add_neighbours`. -/
def exploreAddNeighbours (bricks : ι → Brick ι) (todo done : List ι) (brick : ι) : List ι :=
  (edgesVisited (bricks brick)).foldl (addNeighbour done) todo

/-- The bricks that the loop of `pg_graph_explore_ptr` finds. -/
def exploreDone (bricks : ι → Brick ι) (rounds : Nat) (brick : ι) : Option (List ι) :=
  match exploreAddNeighbours bricks [] [] brick with
  | [] => some [brick]
  | next :: rest => search (exploreAddNeighbours bricks) rounds (next :: rest) []

/-- `pg_graph_explore_ptr`, bounded by the rounds of its loop. -/
def pgGraphExplorePtr (bricks : ι → Brick ι) (polls : ι → Bool) (first : List ι → Option ι)
    (rounds : Nat) (graph : PgGraph ι) (brick : Option ι) : Option (Option PgError × PgGraph ι) :=
  match brick.or (getAnyBrick first graph) with
  | none => some (none, graph)
  | some brick => (exploreDone bricks rounds brick).map (pushAll bricks polls (emptyGraph graph))

end Model

section Components

variable {ι : Type}

/-- There is a link from one brick to another. -/
def Adjacent (bricks : ι → Brick ι) (brick other : ι) : Prop :=
  ∃ side index pairIndex, (bricks brick).linkAt side index = some (other, pairIndex)

/-- Two bricks are connected by links. -/
def Connected (bricks : ι → Brick ι) : ι → ι → Prop :=
  Relation.ReflTransGen (Adjacent bricks)

section Pushing

variable {bricks : ι → Brick ι} {polls : ι → Bool}
variable {graph : PgGraph ι} {brick : ι} {pushed : List ι}

/-- The names of the bricks of a list. -/
def namesOf (bricks : ι → Brick ι) (list : List ι) : List String :=
  list.map (fun brick => (bricks brick).name)

theorem pgGraphGet_isSome {brickName : String} :
    (pgGraphGet bricks graph brickName).isSome = true ↔ brickName ∈ namesOf bricks graph.all := by
  simp [pgGraphGet, namesOf]

/-- Bricks whose names are distinct are all pushed. -/
theorem pushAll_of_distinct (distinct : (namesOf bricks (pushed ++ graph.all)).Nodup) :
    pushAll bricks polls graph pushed = (none, { graph with
          all := pushed.reverse ++ graph.all
          pollable := (pushed.filter polls).reverse ++ graph.pollable }) := by
  induction pushed generalizing graph with
  | nil => rfl
  | cons brick rest ih =>
    rw [namesOf, cons_append, map_cons, nodup_cons] at distinct
    have isFresh : ¬ (pgGraphGet bricks graph (bricks brick).name).isSome = true := by
      rw [pgGraphGet_isSome]
      intro member
      refine distinct.1 ?_
      rw [map_append]
      exact mem_append_right _ member
    unfold pushAll pgGraphPush
    rw [if_neg isFresh]
    have later : (namesOf bricks (rest ++ brick :: graph.all)).Nodup := by
      rw [namesOf, map_append, map_cons, nodup_middle, ← map_append]
      exact nodup_cons.mpr distinct
    dsimp only
    rw [ih later]
    cases isPolled : polls brick <;> simp [isPolled]

/-- Two bricks of the same name are not both pushed. -/
theorem pushAll_of_shared (tableDistinct : (namesOf bricks graph.all).Nodup)
    (shared : ¬ (namesOf bricks (pushed ++ graph.all)).Nodup) :
    ∃ failure after, pushAll bricks polls graph pushed = (some failure, after) := by
  induction pushed generalizing graph with
  | nil => exact absurd tableDistinct shared
  | cons brick rest ih =>
    unfold pushAll pgGraphPush
    by_cases inTable : (pgGraphGet bricks graph (bricks brick).name).isSome = true
    · rw [if_pos inTable]
      exact ⟨_, _, rfl⟩
    · rw [if_neg inTable]
      rw [pgGraphGet_isSome] at inTable
      refine ih ?_ ?_
      · exact nodup_cons.mpr ⟨inTable, tableDistinct⟩
      · rw [namesOf, map_append, map_cons, nodup_middle, ← map_append]
        exact shared

end Pushing

variable [DecidableEq ι]

variable {done todo : List ι}

theorem mem_addNeighbour {edge : Edge ι} {other : ι} :
    other ∈ addNeighbour done todo edge ↔ other ∈ todo ∨ other ∉ done ∧ edge.link = some other := by
  unfold addNeighbour
  cases isLink : edge.link with
  | none => simp
  | some neighbour =>
    dsimp only
    by_cases met : neighbour ∈ todo ∨ neighbour ∈ done
    · rw [if_pos met]
      constructor
      · exact .inl
      · rintro (inTodo | ⟨notDone, same⟩)
        · exact inTodo
        · cases same
          exact met.resolve_right notDone
    · rw [if_neg met, mem_cons, some.injEq]
      constructor
      · rintro (same | inTodo)
        · subst same
          exact .inr ⟨fun isDone => met (.inr isDone), rfl⟩
        · exact .inl inTodo
      · rintro (inTodo | ⟨_, same⟩)
        · exact .inr inTodo
        · exact .inl same.symm

theorem mem_foldl_addNeighbour {edges : List (Edge ι)} {other : ι} :
    other ∈ edges.foldl (addNeighbour done) todo ↔ other ∈ todo ∨
        other ∉ done ∧ ∃ edge ∈ edges, edge.link = some other := by
  induction edges generalizing todo with
  | nil => simp
  | cons edge edges ih =>
    rw [foldl_cons, ih, mem_addNeighbour]
    simp only [mem_cons, exists_eq_or_imp]
    tauto

theorem nodup_foldl_addNeighbour {edges : List (Edge ι)} (distinct : todo.Nodup) :
    (edges.foldl (addNeighbour done) todo).Nodup := by
  induction edges generalizing todo with
  | nil => exact distinct
  | cons edge edges ih =>
    refine ih ?_
    unfold addNeighbour
    split
    · exact distinct
    · split
      · exact distinct
      · rename_i fresh
        exact nodup_cons.mpr ⟨fun member => fresh (.inl member), distinct⟩

/-- The exploration pushes what it found. -/
theorem pgGraphExplorePtr_eq {bricks : ι → Brick ι} {polls : ι → Bool} {first : List ι → Option ι}
    {graph : PgGraph ι} {brick : ι} {rounds : Nat}
    (isDone : exploreDone bricks rounds brick = some done) :
    pgGraphExplorePtr bricks polls first rounds graph (some brick) =
      some (pushAll bricks polls (emptyGraph graph) done) := by
  unfold pgGraphExplorePtr
  rw [some_or]
  dsimp only
  rw [isDone]
  rfl

section Invariant

variable [Fintype ι] {bricks : ι → Brick ι}

/-- Adding neighbours adds the bricks behind the links. -/
theorem exploreAddNeighbours_expands (invariant : LinkInvariant bricks) :
    Expands (Adjacent bricks) (exploreAddNeighbours bricks) where
  mem := by
    intro todo done brick other
    unfold exploreAddNeighbours
    rw [mem_foldl_addNeighbour, mem_edgesVisited_iff (invariant.counted brick)]
    rfl
  nodup := by
    intro todo done brick distinct
    exact nodup_foldl_addNeighbour distinct

variable {brick : ι}

theorem Adjacent.symm (invariant : LinkInvariant bricks) {other : ι}
    (adjacent : Adjacent bricks brick other) : Adjacent bricks other brick := by
  obtain ⟨side, index, pairIndex, linked⟩ := adjacent
  exact ⟨_, _, _, invariant.back linked⟩

variable {rounds : Nat}

/-- The exploration ends with the bricks that are connected. -/
theorem exploreDone_returns (invariant : LinkInvariant bricks) (brick : ι)
    (enough : Fintype.card ι ≤ rounds) :
    ∃ done, exploreDone bricks rounds brick = some done ∧ done.Nodup ∧
        ∀ other, other ∈ done ↔ Connected bricks brick other := by
  have expands := exploreAddNeighbours_expands invariant
  have isTodo (other : ι) : other ∈ exploreAddNeighbours bricks [] [] brick ↔
        Adjacent bricks brick other := by
    simp [expands.mem]
  unfold exploreDone
  cases isList : exploreAddNeighbours bricks [] [] brick with
  | nil =>
    refine ⟨[brick], rfl, nodup_singleton brick, fun other => ?_⟩
    rw [isList] at isTodo
    rw [mem_singleton]
    constructor
    · rintro rfl
      exact .refl
    · intro connected
      rcases connected.cases_head with same | ⟨next, adjacent, _⟩
      · exact same.symm
      · exact absurd ((isTodo next).mpr adjacent) not_mem_nil
  | cons next rest =>
    have searching : Searching (Adjacent bricks) (next :: rest) [] := by
      refine ⟨?_, fun _ member => absurd member not_mem_nil⟩
      rw [append_nil, ← isList]
      exact expands.nodup [] [] brick nodup_nil
    have allRounds : Fintype.card ι ≤ rounds + ([] : List ι).length := enough
    obtain ⟨found, isFound, distinct, mem⟩ := search_returns expands searching allRounds
    refine ⟨found, isFound, distinct, fun other => (mem other).trans ?_⟩
    rw [← isList]
    have isNext : Adjacent bricks brick next := (isTodo next).mp (isList ▸ mem_cons_self)
    constructor
    · rintro (none | ⟨start, inTodo, reach⟩)
      · exact absurd none not_mem_nil
      · exact reach.head ((isTodo start).mp inTodo)
    · intro connected
      rcases connected.cases_head with rfl | ⟨start, adjacent, reach⟩
      · -- the brick itself is found again behind its neighbour
        exact .inr ⟨next, (isTodo next).mpr isNext, .single (isNext.symm invariant)⟩
      · exact .inr ⟨start, (isTodo start).mpr adjacent, reach⟩

/-- The bricks that are connected to a brick have distinct names. -/
def DistinctNames (bricks : ι → Brick ι) (brick : ι) : Prop :=
  ∀ one other, Connected bricks brick one → Connected bricks brick other →
    (bricks one).name = (bricks other).name → one = other

/-- A graph holds the bricks that are connected to a brick. -/
structure HoldsComponent (bricks : ι → Brick ι) (polls : ι → Bool) (brick : ι) (graph : PgGraph ι)
    : Prop where
  distinct : graph.all.Nodup
  mem : ∀ other, other ∈ graph.all ↔ Connected bricks brick other
  polledOnce : graph.pollable.Nodup
  polled : ∀ other, other ∈ graph.pollable ↔ Connected bricks brick other ∧ polls other = true

section

variable (invariant : LinkInvariant bricks) (polls : ι → Bool) (first : List ι → Option ι)
  (graph : PgGraph ι) (enough : Fintype.card ι ≤ rounds)

include invariant polls first enough

theorem pgGraphExplorePtr_of_distinct (names : DistinctNames bricks brick) :
    ∃ after, pgGraphExplorePtr bricks polls first rounds graph (some brick) = some (none, after) ∧
        HoldsComponent bricks polls brick after := by
  obtain ⟨done, isDone, distinct, mem⟩ := exploreDone_returns invariant brick enough
  have allNames : (namesOf bricks (done ++ (emptyGraph graph).all)).Nodup := by
    rw [emptyGraph, append_nil]
    refine List.Nodup.map_on ?_ distinct
    intro one oneDone other otherDone sameName
    exact names one other ((mem one).mp oneDone) ((mem other).mp otherDone) sameName
  rw [pgGraphExplorePtr_eq isDone, pushAll_of_distinct allNames]
  refine ⟨_, rfl, ?_⟩
  simp only [emptyGraph, append_nil]
  exact
    { distinct := nodup_reverse.mpr distinct
      mem := fun other => mem_reverse.trans (mem other)
      polledOnce := nodup_reverse.mpr (distinct.filter _)
      polled := by
        intro other
        rw [mem_reverse, mem_filter]
        exact and_congr_left' (mem other) }

theorem pgGraphExplorePtr_of_shared (shared : ¬ DistinctNames bricks brick) :
    ∃ failure after, pgGraphExplorePtr bricks polls first rounds graph (some brick) =
        some (some failure, after) := by
  obtain ⟨done, isDone, _, mem⟩ := exploreDone_returns invariant brick enough
  have tableEmpty : (namesOf bricks (emptyGraph graph).all).Nodup := nodup_nil
  have sharedNames : ¬ (namesOf bricks (done ++ (emptyGraph graph).all)).Nodup := by
    rw [emptyGraph, append_nil]
    intro allNames
    refine shared (fun one other oneConnected otherConnected sameName => ?_)
    exact inj_on_of_nodup_map allNames ((mem one).mpr oneConnected)
      ((mem other).mpr otherConnected) sameName
  obtain ⟨failure, after, isFailure⟩ := pushAll_of_shared tableEmpty sharedNames
  exact ⟨failure, after, (pgGraphExplorePtr_eq isDone).trans (congrArg some isFailure)⟩

end

/--
Exploring from a brick returns; it fills the graph with the bricks connected
to it if their names are distinct, and fails if two of them share a name.
-/
theorem pg_graph_explore_ptr_component (invariant : LinkInvariant bricks)
    (polls : ι → Bool) (first : List ι → Option ι) (graph : PgGraph ι) (brick : ι) {rounds : Nat}
    (enough : Fintype.card ι ≤ rounds) :
    ∃ outcome after, pgGraphExplorePtr bricks polls first rounds graph (some brick) =
          some (outcome, after) ∧
        (DistinctNames bricks brick → outcome = none ∧ HoldsComponent bricks polls brick after) ∧
        (¬ DistinctNames bricks brick → ∃ failure, outcome = some failure) := by
  by_cases names : DistinctNames bricks brick
  · obtain ⟨after, returned, holds⟩ :=
      pgGraphExplorePtr_of_distinct invariant polls first graph enough names
    exact ⟨none, after, returned, fun _ => ⟨rfl, holds⟩, fun shared => absurd names shared⟩
  · obtain ⟨failure, after, returned⟩ :=
      pgGraphExplorePtr_of_shared invariant polls first graph enough names
    exact ⟨some failure, after, returned, fun distinct =>
      absurd distinct names, fun _ => ⟨failure, rfl⟩⟩

end Invariant

end Components

/-- The small program after its two bricks were linked. -/
def pairLinked : Graph Bool Unit :=
  pairGraph.after (quietOps Bool) (.link (some false) (some true))

theorem pairLinked_invariant : LinkInvariant pairLinked.brick := by
  have started : (linkSystem (quietOps Bool)).Reachable (.ok pairGraph) := by
    refine .initial ⟨pairGraph, rfl, fun which => ?_⟩
    refine ⟨nopRegistry, some "nop", some (pairConfig which), ?_⟩
    cases which <;> rfl
  have linked : (linkSystem (quietOps Bool)).Reachable (.ok pairLinked) :=
    .step (.link (some false) (some true)) started ⟨pairGraph, rfl, rfl⟩
  obtain ⟨graph, isGraph, invariant⟩ := linkSystem_invariant linked
  cases isGraph
  exact invariant

/-- Exploring from one of two linked bricks finds both. -/
theorem pg_graph_explore_ptr_component_pair :
    ∃ after : PgGraph Bool, pgGraphExplorePtr pairLinked.brick (fun _ => true) List.head? 2
          { name := "g", all := [], pollable := [] } (some false) =
          some (none, after) ∧
        true ∈ after.all ∧
        true ∈ after.pollable := by
  obtain ⟨outcome, after, returned, distinct, _⟩ :=
    pg_graph_explore_ptr_component pairLinked_invariant (fun _ => true)
      List.head? { name := "g", all := [], pollable := [] } false
      (show Fintype.card Bool ≤ 2 by decide)
  have connected : Connected pairLinked.brick false true := .single ⟨.east, 0, 0, rfl⟩
  have names : ∀ one other, (pairLinked.brick one).name = (pairLinked.brick other).name →
        one = other := by
    decide
  obtain ⟨isNone, holds⟩ := distinct (fun one other _ _ => names one other)
  rw [isNone] at returned
  exact ⟨after, returned, (holds.mem true).mpr connected, (holds.polled true).mpr ⟨connected, rfl⟩⟩

end PacketGraph
