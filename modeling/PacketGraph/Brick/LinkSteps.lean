import PacketGraph.Brick.Invariant

namespace PacketGraph

open Function List

/-!
# What one linking operation does to a graph

`pg_brick_link` joins two free edges or fails without a change, and
`do_unlink` notifies both ends of a link and cuts it.  Both are stated as
equations with the pure updates of the link invariant, for graphs that satisfy
it, so that the separate writes of the source need not be looked at again.
-/

variable {ι σ : Type}

variable {brick : Brick ι} {side : Side}

/-- A side that counts fewer links than it may have contains a free slot. -/
theorem exists_freeSlot (counted : WellCounted brick)
    (available : isPlaceAvailable brick side = true) :
    ∃ edge ∈ brick.stored side, edge.link = none := by
  rw [isPlaceAvailable_eq, getSide_eq] at available
  have space := of_decide_eq_true available
  have size := counted.storage (brick.storageSide side)
  have count := counted.count (brick.storageSide side)
  have bound := (counted.bound (brick.storageSide side)).2
  by_contra allLinked
  push Not at allLinked
  have full : linkCount (brick.stored side) = (brick.stored side).length := by
    unfold linkCount
    rw [countP_eq_length]
    intro edge member
    exact Option.isSome_iff_ne_none.mpr (allLinked edge member)
  unfold Brick.stored at full
  split at size
  · omega
  · have := bound ‹_›
    omega

/-- The local invariant does not look at the reference count. -/
theorem WellCounted.withRefcount (counted : WellCounted brick) (refcount : Int) :
    WellCounted { brick with refcount := refcount } where
  storage := counted.storage
  bound := counted.bound
  count := counted.count
  room := counted.room
  spare := counted.spare

section

variable (brick : Brick ι) (side : Side) (index : Nat) (target : ι)

/-- Storing a link and then its pair index attaches the end of the link. -/
theorem modifyEdge_storeLink (pairIndex : Nat) :
    modifyEdge { linkNotify (storeLink brick side index target) side with
          refcount := brick.refcount + 1 }
        side index (fun own => { own with pairIndex := pairIndex }) =
      attach brick side index target pairIndex := by
  unfold attach storeLink linkNotify modifyNb modifyEdge
  cases kind : brick.type <;> cases side <;> simp [kind, Brick.setSide, Brick.sides, Brick.side,
      modify_modify_eq, comp_def]

/-- Storing a link commutes with setting the reference count. -/
theorem linkNotify_storeLink_withRefcount (refcount : Int) :
    linkNotify (storeLink { brick with refcount := refcount } side index target) side =
      { linkNotify (storeLink brick side index target) side with
        refcount := refcount } := by
  unfold storeLink linkNotify modifyNb modifyEdge
  cases kind : brick.type <;> cases side <;> simp [kind, Brick.setSide, Brick.sides, Brick.side]

/-- Storing a link leaves the own reference count alone. -/
theorem refcount_linkNotify_storeLink :
    (linkNotify (storeLink brick side index target) side).refcount = brick.refcount := by
  unfold storeLink linkNotify modifyNb modifyEdge
  cases kind : brick.type <;> simp [kind]

end

/-- The edge that stores a new link is still there. -/
theorem getEdge_storeLink {index : Nat} (free : FreeSlot brick side index)
    (target : ι) (refcount : Int) :
    ∃ edge, pgBrickGetEdge { linkNotify (storeLink brick side index target) side with
            refcount := refcount }
          side index =
        some edge := by
  obtain ⟨edge, read, _⟩ := free.free
  refine ⟨{ edge with link := some target }, ?_⟩
  unfold storeLink linkNotify modifyNb modifyEdge pgBrickGetEdge
  unfold pgBrickGetEdge at read
  cases kind : brick.type <;> cases side <;> simp_all [Brick.setSide, Brick.sides, Brick.side]

/-- The side on which `do_unlink` works: a monopole asks its `get_side`. -/
def Brick.linkSide (brick : Brick ι) (side : Side) : Side :=
  if brick.type = .monopole then opsGetSide brick else side

theorem detach_storageIndex (brick : Brick ι) (side : Side) (index : Nat) :
    detach brick side (brick.storageIndex index) = detach brick side index := by
  unfold detach modifyEdge Brick.storageIndex
  cases kind : brick.type <;> simp

/-- An edge that carries a link is a link at its canonical place. -/
theorem linkAt_of_getEdge {index : Nat} {paired : ι} {pairIndex : Nat}
    (read : pgBrickGetEdge brick side index = some ⟨some paired, pairIndex⟩) :
    brick.linkAt (brick.linkSide side) (brick.storageIndex index) = some (paired, pairIndex) := by
  rw [linkAt_eq_some_iff]
  unfold Brick.Names Brick.linkSide Brick.storageIndex
  unfold pgBrickGetEdge at read ⊢
  cases kind : brick.type <;> simp_all

/-- Resetting an edge of a brick that loses a reference detaches it. -/
private theorem detach_of_lowered (brick : Brick ι) (side : Side) (index : Nat) :
    modifyNb (modifyEdge { brick with refcount := brick.refcount - 1 } side index (fun _ => .empty))
        side (· + 65535) =
      detach brick side index := by
  unfold detach modifyNb modifyEdge
  cases kind : brick.type <;> cases side <;> simp [kind, Brick.setSide, Brick.sides, Brick.side]

variable [DecidableEq ι]

variable {graph : Graph ι σ}

/-- What `insert_link` does when the side has a place. -/
theorem insertLink_eq {origin : ι} (counted : WellCounted (graph.brick origin))
    (available : isPlaceAvailable (graph.brick origin) side = true) (target : ι) :
    ∃ index, FreeSlot (graph.brick origin) side index ∧ insertLink graph origin target side =
          .ok (index, pgBrickIncref (graph.modify origin
                (fun brick => storeLink brick side index target))
              target) := by
  obtain ⟨edge, member, unlinked⟩ := exists_freeSlot counted available
  cases kind : (graph.brick origin).type with
  | multipole =>
    have stored : (graph.brick origin).stored side = ((graph.brick origin).sides side).edges := by
      simp [Brick.stored, Brick.storageSide, kind]
    have size := counted.storage side
    simp only [kind, ↓reduceIte] at size
    have whole : ((graph.brick origin).sides side).edges.take
            ((graph.brick origin).sides side).max = ((graph.brick origin).sides side).edges := by
      rw [← size, take_length]
    rw [stored] at member
    have nonempty : ((graph.brick origin).sides side).edges ≠ [] := ne_nil_of_mem member
    cases search : ((graph.brick origin).sides side).edges.findIdx?
          (fun edge => edge.link.isNone) with
    | none =>
      rw [findIdx?_eq_none_iff] at search
      have linked := search edge member
      simp [unlinked] at linked
    | some index =>
      obtain ⟨inside, isFree, _⟩ := findIdx?_eq_some_iff_getElem.mp search
      refine ⟨index, ⟨Or.inl kind, ?_⟩, ?_⟩
      · refine ⟨((graph.brick origin).sides side).edges[index], ?_, ?_⟩
        · simp [pgBrickGetEdge, kind, inside]
        · simpa using isFree
      · simp [insertLink, kind, nonempty, whole, search]
  | dipole | monopole =>
    have size := counted.storage ((graph.brick origin).storageSide side)
    simp only [kind, reduceCtorEq, ↓reduceIte] at size
    obtain ⟨only, shape⟩ := length_eq_one_iff.mp size
    rw [Brick.stored, shape, mem_singleton] at member
    subst member
    simp only [Brick.storageSide, kind, reduceCtorEq, ↓reduceIte, Brick.sides] at shape
    refine ⟨0, ⟨Or.inr rfl, edge, ?_, unlinked⟩, ?_⟩
    · simp [pgBrickGetEdge, kind, Brick.sides, Brick.side, shape]
    · simp [insertLink, kind]

/-- What `pg_brick_link` does once both places are available. -/
theorem pgBrickLink_eq {west east : ι} (westCounted : WellCounted (graph.brick west))
    (eastCounted : WellCounted (graph.brick east)) (distinct : west ≠ east)
    (westAvailable : isPlaceAvailable (graph.brick west) .east = true)
    (eastAvailable : isPlaceAvailable (graph.brick east) .west = true) :
    ∃ westIndex eastIndex, FreeSlot (graph.brick west) .east westIndex ∧
        FreeSlot (graph.brick east) .west eastIndex ∧
        pgBrickLink graph (some west) (some east) = .ok (none, { graph with
              brick :=
                joinLink graph.brick west westIndex east eastIndex }) := by
  obtain ⟨eastIndex, eastFree, eastInsert⟩ := insertLink_eq eastCounted eastAvailable west
  let middle : Graph ι σ :=
    (pgBrickIncref (graph.modify east (fun brick => storeLink brick .west eastIndex west))
      west).modify east (fun brick => linkNotify brick .west)
  have westKept : middle.brick west = { graph.brick west with
          refcount := (graph.brick west).refcount + 1 } := by
    simp [middle, pgBrickIncref, Graph.modify, update_of_ne, distinct]
  have westReady : WellCounted (middle.brick west) := by
    rw [westKept]
    exact westCounted.withRefcount _
  have westRoom : isPlaceAvailable (middle.brick west) .east = true := by
    rw [westKept]
    exact westAvailable
  obtain ⟨westIndex, westFree, westInsert⟩ := insertLink_eq westReady westRoom east
  have westSlot : FreeSlot (graph.brick west) .east westIndex := by
    rw [westKept] at westFree
    exact ⟨westFree.named, westFree.free⟩
  refine ⟨westIndex, eastIndex, westSlot, eastFree, ?_⟩
  let late : Graph ι σ :=
    (pgBrickIncref (middle.modify west (fun brick => storeLink brick .east westIndex east))
      east).modify west (fun brick => linkNotify brick .east)
  have lateEast : late.brick east = { linkNotify
            (storeLink (graph.brick east) .west eastIndex west) .west with
          refcount := (graph.brick east).refcount + 1 } := by
    have same := refcount_linkNotify_storeLink (graph.brick east) .west eastIndex west
    simp [late, middle, pgBrickIncref, Graph.modify, update_of_ne, distinct, Ne.symm distinct, same]
  have lateWest : late.brick west = { linkNotify
            (storeLink (graph.brick west) .east westIndex east) .east with
          refcount := (graph.brick west).refcount + 1 } := by
    rw [← linkNotify_storeLink_withRefcount, ← westKept]
    simp [late, pgBrickIncref, Graph.modify, update_of_ne, distinct]
  obtain ⟨eastEdge, eastRead⟩ := getEdge_storeLink eastFree west ((graph.brick east).refcount + 1)
  obtain ⟨westEdge, westRead⟩ := getEdge_storeLink westSlot east ((graph.brick west).refcount + 1)
  rw [← lateEast] at eastRead
  rw [← lateWest] at westRead
  have afterEast : ∀ change, pgBrickGetEdge ((late.modify east change).brick west) .east westIndex =
          some westEdge := by
    intro change
    simpa [Graph.modify, update_of_ne, distinct] using westRead
  have computed : pgBrickLink graph (some west) (some east) = .ok (none, (late.modify east
            (fun brick => modifyEdge brick .west eastIndex
                (fun own => { own with pairIndex := westIndex }))).modify west
            (fun brick => modifyEdge brick .east westIndex
                (fun own => { own with pairIndex := eastIndex }))) := by
    simp only [pgBrickLink, distinct, ↓reduceIte, eastAvailable, westAvailable,
      not_true_eq_false, eastInsert]
    rw [show insertLink ((pgBrickIncref (graph.modify east
              (fun brick => storeLink brick .west eastIndex west))
            west).modify east (fun brick => linkNotify brick .west))
          west east .east = _ from westInsert]
    simp only [setEdge]
    rw [show pgBrickGetEdge (((pgBrickIncref (middle.modify west
              (fun brick => storeLink brick .east westIndex east)) east).modify west
              (fun brick => linkNotify brick .east)).brick east) .west eastIndex = _ from eastRead]
    simp only
    rw [show pgBrickGetEdge _ .east westIndex = _ from afterEast _]
  rw [computed]
  congr 2
  unfold Graph.modify
  congr 1
  funext brick
  unfold joinLink
  by_cases isWest : brick = west
  · subst isWest
    simp only [update_self, update_of_ne distinct]
    rw [lateWest, modifyEdge_storeLink]
  · by_cases isEast : brick = east
    · subst isEast
      simp only [update_of_ne isWest, update_self]
      rw [lateEast, modifyEdge_storeLink]
    · simp [update_of_ne, isWest, isEast, late, middle, pgBrickIncref, Graph.modify]

/-- A link call reports an error and changes nothing, or joins two slots. -/
theorem pgBrickLink_cases (counted : ∀ brick, WellCounted (graph.brick brick))
    (west east : Option ι) :
    (∃ failure, pgBrickLink graph west east = .ok (some failure, graph)) ∨
      ∃ westBrick eastBrick westIndex eastIndex, west = some westBrick ∧ east = some eastBrick ∧
          westBrick ≠ eastBrick ∧
          isPlaceAvailable (graph.brick westBrick) .east = true ∧
          isPlaceAvailable (graph.brick eastBrick) .west = true ∧
          FreeSlot (graph.brick westBrick) .east westIndex ∧
          FreeSlot (graph.brick eastBrick) .west eastIndex ∧
          pgBrickLink graph west east = .ok (none, { graph with
                brick :=
                  joinLink graph.brick westBrick westIndex eastBrick eastIndex }) := by
  cases east with
  | none => exact Or.inl ⟨_, rfl⟩
  | some eastBrick =>
    cases west with
    | none => exact Or.inl ⟨_, rfl⟩
    | some westBrick =>
      by_cases same : westBrick = eastBrick
      · exact Or.inl ⟨pgErrorNew "Can not link a brick to itself", by simp [pgBrickLink, same]⟩
      · by_cases eastRoom : isPlaceAvailable (graph.brick eastBrick) .west = true
        · by_cases westRoom : isPlaceAvailable (graph.brick westBrick) .east = true
          · obtain ⟨westIndex, eastIndex, westFree, eastFree, linked⟩ :=
              pgBrickLink_eq (counted westBrick) (counted eastBrick) same westRoom eastRoom
            exact Or.inr ⟨westBrick, eastBrick, westIndex, eastIndex, rfl, rfl, same,
                westRoom, eastRoom, westFree, eastFree, linked⟩
          · exact Or.inl ⟨pgErrorNew ((graph.brick westBrick).name ++ ":EAST side full"),
                by simp [pgBrickLink, same, eastRoom, westRoom]⟩
        · exact Or.inl ⟨pgErrorNew ((graph.brick eastBrick).name ++ ":WEST side full"),
              by simp [pgBrickLink, same, eastRoom]⟩

/-- Run the `unlink_notify` callback of one brick. -/
def notify (ops : BrickOps ι σ) (graph : Graph ι σ) (notified : ι) (side : Side) (index : Nat) :
    Graph ι σ × Option PgError :=
  let answer := ops.unlinkNotify (graph.brick notified) (graph.priv notified) side index
  ({ graph with priv := update graph.priv notified answer.1 }, answer.2)

variable (ops : BrickOps ι σ) (graph : Graph ι σ)

@[simp] theorem brick_notify (notified : ι) (side : Side) (index : Nat) :
    (notify ops graph notified side index).1.brick = graph.brick :=
  rfl

/-- The notification through an edge goes to the brick it links to. -/
theorem unlinkNotify_linked (notified : ι) (pairIndex : Nat) (arraySide : Side) :
    unlinkNotify ops graph ⟨some notified, pairIndex⟩ arraySide =
      notify ops graph notified (pgFlipSide arraySide) pairIndex :=
  rfl

/--
The whole effect of breaking a link: both ends are notified in turn, and the
link is cut unless one of them sets an error.
-/
def breakLink (ops : BrickOps ι σ) (graph : Graph ι σ) (target : ι) (side : Side) (index : Nat)
    (paired : ι) (pairIndex : Nat) : CallResult ι σ :=
  match notify ops graph paired (pgFlipSide side) pairIndex with
  | (graph, some failure) => .ok (some failure, graph)
  | (graph, none) =>
    match notify ops graph target side index with
    | (graph, some failure) => .ok (some failure, graph)
    | (graph, none) =>
      .ok (none, { graph with brick := cutLink graph.brick target side index paired pairIndex })

/-- A link is cut unless one of its ends sets an error. -/
theorem breakLink_eq (target : ι) (side : Side) (index : Nat) (paired : ι) (pairIndex : Nat) :
    breakLink ops graph target side index paired pairIndex =
      let first := notify ops graph paired (pgFlipSide side) pairIndex
      let second := notify ops first.1 target side index
      match first.2, second.2 with
      | some failure, _ => .ok (some failure, first.1)
      | none, some failure => .ok (some failure, second.1)
      | none, none =>
        .ok (none, { second.1 with
          brick := cutLink graph.brick target side index paired pairIndex }) := by
  unfold breakLink
  rcases first : notify ops graph paired (pgFlipSide side) pairIndex with ⟨afterFirst, _ | failure⟩
  · rcases second : notify ops afterFirst target side index with ⟨afterSecond, _ | failure⟩
    · have kept : afterSecond.brick = graph.brick := by
        rw [← congrArg (fun answer => answer.1.brick) second, brick_notify,
          ← congrArg (fun answer => answer.1.brick) first, brick_notify]
      simp only [second, kept]
    · simp only [second]
  · rfl

/-- Cutting a link looks at the index of a multipole only. -/
theorem cutLink_storageIndex (bricks : ι → Brick ι) (target : ι) (side : Side) (index : Nat)
    (paired : ι) (pairIndex : Nat) :
    cutLink bricks target side ((bricks target).storageIndex index) paired pairIndex =
      cutLink bricks target side index paired pairIndex := by
  unfold cutLink
  rw [detach_storageIndex]

/-- Resetting both ends of a link detaches them. -/
theorem resetLink_eq {target paired : ι} (side : Side) (index pairIndex : Nat)
    (distinct : target ≠ paired) (targetHeld : 1 < (graph.brick target).refcount)
    (pairedHeld : 1 < (graph.brick paired).refcount) :
    resetLink graph target side index paired pairIndex = { graph with
        brick := cutLink graph.brick target side index paired pairIndex } := by
  have targetStays : 0 < (graph.brick target).refcount - 1 := by omega
  have pairedStays : 0 < (graph.brick paired).refcount - 1 := by omega
  unfold resetLink cutLink pgBrickDecref Graph.modify
  simp only [Graph.mk.injEq, and_true]
  funext brick
  by_cases isPaired : brick = paired
  · subst isPaired
    simp only [update_self, update_of_ne (Ne.symm distinct), pairedStays, ↓reduceIte]
    exact detach_of_lowered _ _ _
  · by_cases isTarget : brick = target
    · subst isTarget
      simp only [update_of_ne isPaired, update_self, targetStays, ↓reduceIte]
      exact detach_of_lowered _ _ _
    · simp [update_of_ne, isPaired, isTarget]

section Invariant

variable [Fintype ι]

/-- `do_unlink` on an edge with a link breaks that link. -/
theorem doUnlink_of_linked (ops : BrickOps ι σ) {graph : Graph ι σ}
    (invariant : LinkInvariant graph.brick)
    {target : ι} {side : Side} {index : Nat} {paired : ι} {pairIndex : Nat}
    (read : pgBrickGetEdge (graph.brick target) side index = some ⟨some paired, pairIndex⟩) :
    doUnlink ops graph target side index = breakLink ops graph target
        ((graph.brick target).linkSide side)
        ((graph.brick target).storageIndex index)
        paired pairIndex := by
  have linked := linkAt_of_getEdge read
  have back := invariant.back linked
  have distinct := invariant.ne_of_linkAt linked
  have pairedHeld := invariant.one_lt_refcount linked
  have targetHeld := invariant.one_lt_refcount back
  obtain ⟨_, pairRead⟩ := linkAt_eq_some_iff.mp back
  have sameSide : (if (graph.brick target).type = .monopole then
          opsGetSide (graph.brick target)
        else side) =
        (graph.brick target).linkSide side := rfl
  simp only [doUnlink, read, sameSide, pairRead, unlinkNotify_linked,
    pgFlipSide_pgFlipSide, breakLink]
  rcases first : notify ops graph paired (pgFlipSide ((graph.brick target).linkSide side)) pairIndex
    with ⟨afterFirst, firstError⟩
  have keptFirst : afterFirst.brick = graph.brick := by
    rw [← congrArg (fun answer => answer.1.brick) first, brick_notify]
  cases firstError with
  | some failure => rfl
  | none =>
    rcases second : notify ops afterFirst target ((graph.brick target).linkSide side)
          ((graph.brick target).storageIndex index)
      with ⟨afterSecond, secondError⟩
    have keptSecond : afterSecond.brick = graph.brick := by
      rw [← congrArg (fun answer => answer.1.brick) second, brick_notify, keptFirst]
    cases secondError with
    | some failure => simp only [second]
    | none =>
      simp only [second]
      rw [resetLink_eq afterSecond _ index pairIndex distinct
        (keptSecond ▸ targetHeld) (keptSecond ▸ pairedHeld), keptSecond, cutLink_storageIndex]

end Invariant

end PacketGraph
