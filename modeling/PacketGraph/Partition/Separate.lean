import PacketGraph.Partition.Split

namespace PacketGraph

open Components Function Option

/-!
# What a split achieves, and what it leaves when it fails

The two queues of a split end up in two graphs exactly when the link that was
cut was the only connection between its ends.  A split that fails before the
link is cut changes nothing; one that fails later leaves the link cut.
-/

variable {ι σ : Type}

section Separation

variable [DecidableEq ι]

/-- A link between two bricks is their only connection. -/
def Bridge (bricks : ι → Brick ι) (w e : ι) : Prop :=
  ∀ index pairIndex, (bricks w).linkAt .east index = some (e, pairIndex) →
      ¬ Connected (cutLink bricks w .east index e pairIndex) w e

/--
What a split is for: two graphs without a common brick, which are the old one
with the two queues, and a link that now goes through the queues.
-/
structure Separated (before : World ι σ) (graph : PgGraph ι) (result : SplitResult ι σ)
    (east : PgGraph ι) (w e qw qe : ι) : Prop where
  disjoint : ∀ brick, brick ∈ result.graph.all → brick ∉ east.all
  union : ∀ brick, brick ∈ result.graph.all ∨ brick ∈ east.all ↔
        brick ∈ graph.all ∨ brick = qw ∨ brick = qe
  west : w ∈ result.graph.all ∧ qw ∈ result.graph.all
  east : e ∈ east.all ∧ qe ∈ east.all
  friends : pgQueueAreFriend result.world qw qe = true ∧ pgQueueAreFriend result.world qe qw = true
  links : ∀ one other, eastLinks result.world.bricks one other +
          (if one = w ∧ other = e then 1 else 0) = eastLinks before.bricks one other +
          (if one = w ∧ other = qw then 1 else 0) + (if one = qe ∧ other = e then 1 else 0)

variable [Fintype ι] {bricks : ι → Brick ι}

/-- Only the link that is cut can be a bridge between its ends. -/
theorem bridge_iff (invariant : LinkInvariant bricks) {w e : ι} {index pairIndex : Nat}
    (linked : (bricks w).linkAt .east index = some (e, pairIndex)) :
    Bridge bricks w e ↔ ¬ Connected (cutLink bricks w .east index e pairIndex) w e := by
  refine ⟨fun bridge => bridge index pairIndex linked, fun apart => ?_⟩
  intro other otherPair otherLinked
  by_cases same : other = index
  · subst same
    rw [linked] at otherLinked
    cases otherLinked
    exact apart
  · -- a second link is left when the first one is cut
    refine absurd (.single ⟨.east, other, otherPair, ?_⟩) apart
    rw [linkAt_cutLink invariant linked, if_neg (by simp [pgFlipSide]), if_neg (by simp [same])]
    exact otherLinked

/-- An explored graph is the component of each of its bricks. -/
theorem Explored.mem_iff {world : World ι σ} {graph : PgGraph ι} (explored : Explored world graph)
    (invariant : LinkInvariant world.bricks) {brick : ι} (member : brick ∈ graph.all) (other : ι) :
    other ∈ graph.all ↔ Connected world.bricks brick other := by
  obtain ⟨origin, _, holds⟩ := explored
  have fromOrigin := (holds.mem brick).mp member
  rw [holds.mem]
  exact ⟨fun connected => (fromOrigin.symm invariant).trans connected,
    fun connected => fromOrigin.trans connected⟩

omit [DecidableEq ι] [Fintype ι] in
theorem mem_of_pgGraphGet {graph : PgGraph ι} {name : String} {brick : ι}
    (found : pgGraphGet bricks graph name = some brick) : brick ∈ graph.all :=
  List.mem_of_find?_eq_some found

/-- The bricks connected to one end of a link are those behind both ends. -/
theorem connected_iff_cut (invariant : LinkInvariant bricks)
    {w e : ι} {side : Side} {index pairIndex : Nat}
    (linked : (bricks w).linkAt side index = some (e, pairIndex)) (brick : ι) :
    Connected bricks w brick ↔ Connected (cutLink bricks w side index e pairIndex) w brick ∨
        Connected (cutLink bricks w side index e pairIndex) e brick := by
  unfold Connected
  rw [adjacent_cutLink invariant linked, reach_addEdge_iff]
  constructor
  · rintro (kept | ⟨_, onward⟩ | ⟨_, onward⟩)
    · exact .inl kept
    · exact .inr onward
    · exact .inl onward
  · rintro (kept | onward)
    · exact .inl kept
    · exact .inr (.inl ⟨.refl, onward⟩)

variable {ops : BrickOps ι σ} {world : World ι σ} {graph : PgGraph ι}
  {names : SplitNames} {w e qw qe : ι} {index pairIndex : Nat}
  {result : SplitResult ι σ} {east : PgGraph ι}

namespace CutMade.Done

variable (done : CutMade.Done ops world names w e .east index pairIndex result east qw qe)
  (invariant : LinkInvariant world.bricks)
  (linked : (world.bricks w).linkAt .east index = some (e, pairIndex)) (places :
    QueuePlaces (cutLink world.bricks w .east index e pairIndex) w e qw qe)

include done invariant linked places

theorem mem_west (brick : ι) :
    brick ∈ result.graph.all ↔ brick = qw ∨
        Connected (cutLink world.bricks w .east index e pairIndex) w brick ∨
        Connected (cutLink world.bricks w .east index e pairIndex) w e ∧ brick = qe :=
  (done.westHolds.mem brick).trans
    (done.relinked.connected_west (invariant.cut linked) places brick)

theorem mem_east (brick : ι) :
    brick ∈ east.all ↔ brick = qe ∨
        Connected (cutLink world.bricks w .east index e pairIndex) e brick ∨
        Connected (cutLink world.bricks w .east index e pairIndex) e w ∧ brick = qw :=
  (done.eastHolds.mem brick).trans
    (done.relinked.connected_east (invariant.cut linked) places brick)

/-- A link that was the only connection separates the two graphs. -/
theorem separated (explored : Explored world graph) (member : w ∈ graph.all)
    (apart : ¬ Connected (cutLink world.bricks w .east index e pairIndex) w e) :
    Separated world graph result east w e qw qe := by
  have cutInvariant : LinkInvariant (cutLink world.bricks w .east index e pairIndex) :=
    invariant.cut linked
  have apartBack : ¬ Connected (cutLink world.bricks w .east index e pairIndex) e w :=
    fun connected => apart (connected.symm cutInvariant)
  have inWest (brick : ι) : brick ∈ result.graph.all ↔ brick = qw ∨
          Connected (cutLink world.bricks w .east index e pairIndex) w
            brick := by
    rw [done.mem_west invariant linked places]
    simp [apart]
  have inEast (brick : ι) : brick ∈ east.all ↔ brick = qe ∨
          Connected (cutLink world.bricks w .east index e pairIndex) e
            brick := by
    rw [done.mem_east invariant linked places]
    simp [apartBack]
  have unreached {start queue : ι} (differs : start ≠ queue) (unlinked : ∀ side otherIndex,
          (cutLink world.bricks w .east index e pairIndex queue).linkAt side otherIndex = none) :
      ¬ Connected (cutLink world.bricks w .east index e pairIndex) start
        queue := by
    intro connected
    exact differs ((reach_to_isolated_iff
      (fun other => (cutInvariant.isolated unlinked other).2)).mp connected)
  exact
    { disjoint := by
        intro brick isWest isEast
        rw [inWest] at isWest
        rw [inEast] at isEast
        rcases isWest with rfl | fromWest
        · rcases isEast with same | fromEast
          · exact places.queuesDiffer same
          · exact unreached places.eastNotWest places.westUnlinked fromEast
        · rcases isEast with rfl | fromEast
          · exact unreached places.westNotEast places.eastUnlinked fromWest
          · exact apart (fromWest.trans (fromEast.symm cutInvariant))
      union := by
        intro brick
        rw [inWest, inEast, explored.mem_iff invariant member, connected_iff_cut invariant linked]
        tauto
      west := ⟨(inWest w).mpr (.inr .refl), (inWest qw).mpr (.inl rfl)⟩
      east := ⟨(inEast e).mpr (.inr .refl), (inEast qe).mpr (.inl rfl)⟩
      friends := by
        unfold pgQueueAreFriend
        rw [done.relinked.friend, update_of_ne places.queuesDiffer, update_self, update_self]
        simp
      links := by
        intro one other
        have gained := done.relinked.links one other
        have lost := eastLinks_cutLink invariant linked one other
        rw [gained, ← lost]
        show eastLinks (cutLink world.bricks w .east index e pairIndex) one other + _ + _ + _ = _
        omega }

end CutMade.Done

/--
When a split of an explored graph returns a graph, the two graphs are
separated exactly when the link was the only connection between its ends.
-/
theorem graph_split_separates_iff {first : List ι → Option ι} {rounds : Nat}
    (enough : Fintype.card ι ≤ rounds) (invariant : LinkInvariant world.bricks)
    (explored : Explored world graph)
    (westFound : pgGraphGet world.bricks graph names.westBrick = some w)
    (eastFound : pgGraphGet world.bricks graph names.eastBrick = some e)
    (linked : (world.bricks w).linkAt .east index = some (e, pairIndex)) {pw pe : σ}
    (unused : SlotsUnused world graph (some (qw, pw)) (some (qe, pe)))
    (returned : pgGraphSplit ops first rounds world graph names (some (qw, pw)) (some (qe, pe)) =
        .ok (some result))
    (isEast : result.east = some east) :
    Separated world graph result east w e qw qe ↔ Bridge world.bricks w e := by
  obtain ⟨foundWest, foundEast, side, place, pairPlace, westSlot, isWestSlot,
      eastSlot, isEastSlot, cut, done⟩ :=
    pgGraphSplit_done enough invariant unused returned isEast
  cases isWestSlot
  cases isEastSlot
  have sameWest : foundWest = w := by
    have again := cut.west
    rw [westFound, some.injEq] at again
    exact again.symm
  have sameEast : foundEast = e := by
    have again := cut.east
    rw [eastFound, some.injEq] at again
    exact again.symm
  subst sameWest
  subst sameEast
  have onEast : side = .east := by
    obtain ⟨_, _, found⟩ := edgeToCut_of_linked (invariant.counted _) linked
    rw [cut.found, some.injEq, Prod.mk.injEq] at found
    exact found.1
  subst onEast
  have places := (cut.places invariant unused).both (qw, pw) rfl (qe, pe) rfl
  rw [bridge_iff invariant cut.linked]
  constructor
  · intro separated connected
    refine separated.disjoint foundEast ?_ separated.east.1
    exact (done.mem_west invariant cut.linked places foundEast).mpr (.inr (.inl connected))
  · exact done.separated invariant cut.linked places explored (mem_of_pgGraphGet westFound)

end Separation

section Atomicity

variable [DecidableEq ι]

/--
A split left everything as it was: the links between bricks that existed
before, and the bricks and pollable bricks of the graph.
-/
structure Untouched (before : World ι σ) (graph : PgGraph ι) (result : SplitResult ι σ)
    (westSlot eastSlot : Option (ι × σ)) : Prop where
  links : ∀ west east, IsOld westSlot eastSlot west → IsOld westSlot eastSlot east →
      eastLinks result.world.bricks west east = eastLinks before.bricks west east
  all : ∀ brick, brick ∈ result.graph.all ↔ brick ∈ graph.all
  pollable : ∀ brick, brick ∈ result.graph.pollable ↔ brick ∈ graph.pollable

variable [Fintype ι] {ops : BrickOps ι σ} {world : World ι σ}
  {graph : PgGraph ι} {names : SplitNames} {westSlot eastSlot : Option (ι × σ)}

/-- A cut takes a link between two bricks away. -/
theorem exists_lost_link {bricks : ι → Brick ι} (invariant : LinkInvariant bricks)
    {w e : ι} {side : Side} {index pairIndex : Nat}
    (linked : (bricks w).linkAt side index = some (e, pairIndex)) :
    ∃ west east, (west = w ∧ east = e ∨ west = e ∧ east = w) ∧
        eastLinks (cutLink bricks w side index e pairIndex) west east ≠
          eastLinks bricks west east := by
  cases side with
  | east =>
    refine ⟨w, e, .inl ⟨rfl, rfl⟩, ?_⟩
    have lost := eastLinks_cutLink invariant linked w e
    rw [if_pos ⟨rfl, rfl⟩] at lost
    omega
  | west =>
    refine ⟨e, w, .inr ⟨rfl, rfl⟩, ?_⟩
    have lost := eastLinks_cutLink invariant (invariant.back linked) e w
    rw [if_pos ⟨rfl, rfl⟩] at lost
    rw [cutLink_swap bricks (invariant.ne_of_linkAt linked)]
    show eastLinks (cutLink bricks e .east pairIndex w index) e w ≠ eastLinks bricks e w
    omega

/--
A split returns; it leaves everything as it was when it returns no graph
exactly when every step after the cut of a link succeeds.
-/
theorem graph_split_atomic_iff (first : List ι → Option ι) {rounds : Nat}
    (enough : Fintype.card ι ≤ rounds) (invariant : LinkInvariant world.bricks)
    (unused : SlotsUnused world graph westSlot eastSlot) :
    ∃ result, pgGraphSplit ops first rounds world graph names westSlot eastSlot =
          .ok (some result) ∧
        ((result.east = none → Untouched world graph result westSlot eastSlot) ↔
          ∀ w e side index pairIndex, CutMade ops world graph names w e side index pairIndex →
            Completes (cutLink world.bricks w side index e pairIndex) w e
              names westSlot eastSlot) := by
  by_cases someCut : ∃ w e side index pairIndex,
        CutMade ops world graph names w e side index pairIndex
  · obtain ⟨w, e, side, index, pairIndex, cut⟩ := someCut
    obtain ⟨result, returned, completes, stops⟩ := cut.returns invariant first enough unused
    have onlyCut {w' e' : ι} {side' : Side} {index' pairIndex' : Nat}
        (other : CutMade ops world graph names w' e' side' index' pairIndex') :
        w' = w ∧ e' = e ∧ side' = side ∧ index' = index ∧ pairIndex' = pairIndex := by
      have sameWest := other.west.symm.trans cut.west
      have sameEast := other.east.symm.trans cut.east
      cases sameWest
      cases sameEast
      have sameEdge := other.found.symm.trans cut.found
      cases sameEdge
      exact ⟨rfl, rfl, rfl, rfl, rfl⟩
    refine ⟨result, returned, fun untouched => ?_, fun all noEast => ?_⟩
    · intro w' e' side' index' pairIndex' other
      obtain ⟨rfl, rfl, rfl, rfl, rfl⟩ := onlyCut other
      by_contra incomplete
      obtain ⟨noEast, kept⟩ := stops incomplete
      obtain ⟨west, east, ends, lost⟩ := exists_lost_link invariant cut.linked
      have westOld := unused.isOld cut.linked
      have eastOld := unused.isOld (invariant.back cut.linked)
      have isOld : IsOld westSlot eastSlot west ∧ IsOld westSlot eastSlot east := by
        rcases ends with ⟨rfl, rfl⟩ | ⟨rfl, rfl⟩
        · exact ⟨westOld, eastOld⟩
        · exact ⟨eastOld, westOld⟩
      refine lost ?_
      rw [← kept west east isOld.1 isOld.2]
      exact (untouched noEast).links west east isOld.1 isOld.2
    · obtain ⟨east, _, _, _, _, done⟩ := completes (all w e side index pairIndex cut)
      rw [done.returned] at noEast
      cases noEast
  · push Not at someCut
    obtain ⟨result, returned, _, sameBricks, sameGraph⟩ :=
      pgGraphSplit_of_uncut first rounds invariant someCut westSlot eastSlot
    refine ⟨result, returned, fun _ w e side index pairIndex cut =>
      absurd cut (someCut w e side index pairIndex), fun _ _ => ?_⟩
    exact
      { links := fun _ _ _ _ => by rw [sameBricks]
        all := fun _ => by rw [sameGraph]
        pollable := fun _ => by rw [sameGraph] }

end Atomicity

section Hubs

/-- Two hubs with two places on each side, and two free addresses. -/
def hubs : Graph (Fin 4) Unit where
  brick := fun address =>
    { type := .multipole
      name := if address = 0 then "w" else if address = 1 then "e" else ""
      refcount := 1
      released := 0
      output := .west
      west := { max := 2, nb := 0, edges := [.empty, .empty] }
      east := { max := 2, nb := 0, edges := [.empty, .empty] } }
  priv := fun _ => ()

/-- The hubs after a link from the first to the second. -/
def hubsOnce : Graph (Fin 4) Unit :=
  hubs.after (quietOps (Fin 4)) (.link (some 0) (some 1))

/-- The hubs after two such links. -/
def hubsTwice : Graph (Fin 4) Unit :=
  hubsOnce.after (quietOps (Fin 4)) (.link (some 0) (some 1))

/-- The world of the hubs, none of which is polled. -/
def hubWorld (links : Graph (Fin 4) Unit) : World (Fin 4) Unit where
  links := links
  polls := fun _ => false
  isQueue := fun _ => false
  friend := fun _ => none

/-- The graph that is explored from the first hub. -/
def hubTable : PgGraph (Fin 4) where
  name := "g"
  all := [1, 0]
  pollable := []

def hubNames : SplitNames where
  eastGraph := "east"
  westBrick := "w"
  eastBrick := "e"
  westQueue := "qw"
  eastQueue := "qe"

/-- What is seen of a split: the bricks of the two graphs. -/
def splitMembers (ended : Except Abort (Option (SplitResult ι σ))) :
    Option (List ι × Option (List ι)) :=
  ended.toOption.join.map (fun result => (result.graph.all, result.east.map PgGraph.all))

theorem exists_of_splitMembers {ended : Except Abort (Option (SplitResult ι σ))}
    {all eastAll : List ι} (seen : splitMembers ended = some (all, some eastAll)) :
    ∃ result east, ended = .ok (some result) ∧ result.east = some east ∧ result.graph.all = all ∧
        east.all = eastAll := by
  unfold splitMembers at seen
  rcases ended with failure | _ | result
  · cases seen
  · cases seen
  · cases isEast : result.east with
    | none => simp [Except.toOption, isEast] at seen
    | some east =>
      simp only [Except.toOption, join_some, map_some, isEast, some.injEq, Prod.mk.injEq] at seen
      exact ⟨result, east, rfl, isEast, seen.1, seen.2⟩

theorem LinkInvariant.after [DecidableEq ι] [Fintype ι] {graph : Graph ι σ}
    (invariant : LinkInvariant graph.brick) (ops : BrickOps ι σ) (call : LinkCall ι) :
    LinkInvariant (graph.after ops call).brick := by
  obtain ⟨outcome, after, returned, steps⟩ := call.exec_returns ops invariant
  unfold Graph.after
  rw [returned]
  exact invariant.steps steps

theorem hubs_invariant : LinkInvariant hubs.brick := by
  refine linkInvariant_of_fresh (fun address => ?_)
  refine ⟨⟨?_, ?_, ?_, ?_, fun isMonopole => by cases isMonopole⟩, rfl, ?_⟩
  · intro side
    cases side <;> rfl
  · intro side
    cases side <;> exact ⟨show 2 < uint16Max by decide, fun single => absurd rfl single⟩
  · intro side
    cases side <;> rfl
  · intro side
    cases side <;> exact Nat.zero_le 2
  · intro side edge stored
    cases side <;> simpa [hubs, Brick.sides] using stored

theorem hubsOnce_invariant : LinkInvariant hubsOnce.brick :=
  hubs_invariant.after _ _

theorem hubsTwice_invariant : LinkInvariant hubsTwice.brick :=
  hubsOnce_invariant.after _ _

/-- A brick that only its owner references has no link. -/
theorem LinkInvariant.unlinked_of_refcount [DecidableEq ι] [Fintype ι] {bricks : ι → Brick ι}
    (invariant : LinkInvariant bricks) (brick : ι) (alone : (bricks brick).refcount = 1)
    (side : Side) (index : Nat) : (bricks brick).linkAt side index = none := by
  cases linked : (bricks brick).linkAt side index with
  | none => rfl
  | some link =>
    have held := invariant.refcount_of_linked linked
    omega

/-- A graph that an exploration filled is explored. -/
theorem explored_of_returned [DecidableEq ι] [Fintype ι] {world : World ι σ}
    (invariant : LinkInvariant world.bricks) {first : List ι → Option ι} {rounds : Nat}
    (enough : Fintype.card ι ≤ rounds) {start graph : PgGraph ι} {origin : ι}
    (returned : pgGraphExplorePtr world.bricks world.polls first rounds start (some origin) = some
        (none, graph)) : Explored world graph := by
  by_cases names : DistinctNames world.bricks origin
  · obtain ⟨same, explored, holds⟩ :=
      pgGraphExplorePtr_of_distinct invariant world.polls first start enough names
    rw [returned, some.injEq, Prod.mk.injEq] at explored
    exact ⟨origin, names, explored.2 ▸ holds⟩
  · obtain ⟨failure, left, explored⟩ :=
      pgGraphExplorePtr_of_shared invariant world.polls first start enough names
    rw [returned] at explored
    cases explored

theorem hub_slots {links : Graph (Fin 4) Unit} (invariant : LinkInvariant links.brick)
    (alone : ∀ address, 2 ≤ address → (links.brick address).refcount = 1) :
    SlotsUnused (hubWorld links) hubTable (some (2, ())) (some (3, ())) := by
  have unused (address : Fin 4) (free : 2 ≤ address) :
      Unused (hubWorld links) hubTable address := by
    refine ⟨invariant.unlinked_of_refcount address (alone address free), ?_, fun _ => nofun⟩
    revert address
    decide
  refine ⟨?_, ?_, ?_⟩
  · rintro _ ⟨⟩
    exact unused 2 (by decide)
  · rintro _ ⟨⟩
    exact unused 3 (by decide)
  · rintro _ ⟨⟩ _ ⟨⟩
    decide

theorem hubsOnce_explored : Explored (hubWorld hubsOnce) hubTable :=
  explored_of_returned hubsOnce_invariant (le_refl 4) (show
      pgGraphExplorePtr (hubWorld hubsOnce).bricks (fun _ => false)
          List.head? 4 { name := "g", all := [], pollable := [] } (some 0) = some (none, hubTable)
      by decide +kernel)

theorem hubsOnce_linked : ((hubWorld hubsOnce).bricks 0).linkAt .east 0 = some (1, 0) := by
  decide

/-- One link between two hubs is their only connection. -/
theorem hubsOnce_bridge : Bridge (hubWorld hubsOnce).bricks 0 1 := by
  have invariant : LinkInvariant (hubWorld hubsOnce).bricks := hubsOnce_invariant
  rw [bridge_iff invariant hubsOnce_linked]
  intro connected
  -- without the link the first hub has no neighbour
  have cutInvariant := invariant.cut hubsOnce_linked
  have alone := cutInvariant.isolated (cutInvariant.unlinked_of_refcount 0 (by decide))
  exact absurd ((reach_isolated_iff (fun other => (alone other).1)).mp connected) (by decide)

/-- Two hubs with one link are separated by a split. -/
theorem graph_split_separates_iff_hubs :
    ∃ result east, pgGraphSplit (quietOps (Fin 4)) List.head? 4 (hubWorld hubsOnce)
          hubTable hubNames (some (2, ())) (some (3, ())) =
          .ok (some result) ∧
        result.east = some east ∧
        Separated (hubWorld hubsOnce) hubTable result east 0 1 2 3 := by
  obtain ⟨result, east, returned, isEast, _⟩ :=
    exists_of_splitMembers (show splitMembers
            (pgGraphSplit (quietOps (Fin 4)) List.head? 4 (hubWorld hubsOnce)
              hubTable hubNames (some (2, ())) (some (3, ()))) = some ([0, 2], some [1, 3])
        by decide +kernel)
  refine ⟨result, east, returned, isEast, ?_⟩
  exact (graph_split_separates_iff (le_refl 4) hubsOnce_invariant
      hubsOnce_explored (by decide) (by decide) hubsOnce_linked
      (hub_slots hubsOnce_invariant (by decide)) returned isEast).mpr hubsOnce_bridge

/-- Two hubs with two links end up in both graphs. -/
theorem parallel_links_not_separated :
    Explored (hubWorld hubsTwice) hubTable ∧ SlotsUnused (hubWorld hubsTwice) hubTable
        (some (2, ())) (some (3, ())) ∧
      ∃ result east, pgGraphSplit (quietOps (Fin 4)) List.head? 4 (hubWorld hubsTwice)
            hubTable hubNames (some (2, ())) (some (3, ())) =
            .ok (some result) ∧
          result.east = some east ∧
          result.graph.all = [0, 1, 3, 2] ∧
          east.all = [1, 0, 2, 3] ∧
          ¬ Separated (hubWorld hubsTwice) hubTable result east 0 1 2 3 := by
  have invariant : LinkInvariant (hubWorld hubsTwice).bricks := hubsTwice_invariant
  obtain ⟨result, east, returned, isEast, isAll, isEastAll⟩ :=
    exists_of_splitMembers (show splitMembers (pgGraphSplit (quietOps (Fin 4)) List.head? 4
              (hubWorld hubsTwice) hubTable hubNames (some (2, ())) (some (3, ()))) =
          some ([0, 1, 3, 2], some [1, 0, 2, 3]) by decide +kernel)
  refine ⟨?_, hub_slots hubsTwice_invariant (by decide), result, east,
    returned, isEast, isAll, isEastAll, fun separated => ?_⟩
  · exact explored_of_returned invariant (le_refl 4) (show
        pgGraphExplorePtr (hubWorld hubsTwice).bricks (fun _ => false)
            List.head? 4 { name := "g", all := [], pollable := [] } (some 0) = some (none, hubTable)
        by decide +kernel)
  · have common := separated.disjoint 0
    rw [isAll, isEastAll] at common
    exact common (by decide) (by decide)

/-- Names of which the first is the name of no brick. -/
def strangeNames : SplitNames :=
  { hubNames with westBrick := "x" }

/-- A split at a brick that is not in the graph changes nothing. -/
theorem graph_split_atomic_iff_unknown :
    ∃ result, pgGraphSplit (quietOps (Fin 4)) List.head? 4 (hubWorld hubsOnce)
          hubTable strangeNames (some (2, ())) (some (3, ())) =
          .ok (some result) ∧
        (result.east = none → Untouched (hubWorld hubsOnce) hubTable result
            (some (2, ())) (some (3, ()))) := by
  obtain ⟨result, returned, untouched⟩ :=
    @graph_split_atomic_iff _ _ _ _ (quietOps (Fin 4)) (hubWorld hubsOnce)
      hubTable strangeNames _ _ List.head? 4 (le_refl 4) hubsOnce_invariant
      (hub_slots hubsOnce_invariant (by decide))
  refine ⟨result, returned, untouched.mpr ?_⟩
  intro w e side index pairIndex cut
  have missing : pgGraphGet (hubWorld hubsOnce).bricks hubTable strangeNames.westBrick =
        none := by
    decide
  have found := cut.west
  rw [missing] at found
  cases found

/--
A split whose second queue cannot be made returns no graph and leaves the link
between the hubs cut.
-/
theorem failed_split_leaves_cut :
    SlotsUnused (hubWorld hubsOnce) hubTable (some (2, ())) none ∧
      eastLinks (hubWorld hubsOnce).bricks 0 1 = 1 ∧
      ∃ result, pgGraphSplit (quietOps (Fin 4)) List.head? 4 (hubWorld hubsOnce)
            hubTable hubNames (some (2, ())) none =
            .ok (some result) ∧
          result.east = none ∧
          eastLinks result.world.bricks 0 1 = 0 ∧
          ¬ Untouched (hubWorld hubsOnce) hubTable result (some (2, ())) none := by
  have slots := hub_slots hubsOnce_invariant (by decide)
  have linkedBefore : eastLinks (hubWorld hubsOnce).bricks 0 1 = 1 := by decide +kernel
  have seen : ((pgGraphSplit (quietOps (Fin 4)) List.head? 4 (hubWorld hubsOnce)
          hubTable hubNames (some (2, ())) none).toOption.join.map (fun result =>
          (result.east.map PgGraph.all, eastLinks result.world.bricks 0 1))) =
        some (none, 0) := by
    decide +kernel
  cases ended : pgGraphSplit (quietOps (Fin 4)) List.head? 4 (hubWorld hubsOnce)
        hubTable hubNames (some (2, ())) none with
  | error failure =>
    rw [ended] at seen
    cases seen
  | ok outcome =>
    cases outcome with
    | none =>
      rw [ended] at seen
      cases seen
    | some result =>
      rw [ended] at seen
      simp only [Except.toOption, join_some, map_some,
        some.injEq, Prod.mk.injEq, map_eq_none_iff] at seen
      obtain ⟨noEast, linkedAfter⟩ := seen
      refine ⟨⟨slots.west, nofun, fun _ _ => nofun⟩, linkedBefore, result,
        rfl, noEast, linkedAfter, fun untouched => ?_⟩
      have kept := untouched.links 0 1
        ⟨by rintro _ ⟨⟩; decide, nofun⟩ ⟨by rintro _ ⟨⟩; decide, nofun⟩
      rw [linkedBefore, linkedAfter] at kept
      cases kept

end Hubs

end PacketGraph
