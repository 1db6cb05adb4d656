import PacketGraph.Brick.Link

namespace PacketGraph

open List Option

/-!
# Reading and writing the ends of a link

One brick's view of linking.  `linkAt` reads the link that a brick holds for a
side and an index, whatever the brick type stores it in.  `attach` and `detach`
are the whole effect that making and breaking a link has on one of its ends.

`WellCounted` is the local invariant of a brick: its edge storage has the size
its type asks for, and each side counts its own links.
-/

namespace Brick

variable {ι : Type}

/-- The side whose storage holds the edges of `side`. -/
def storageSide (brick : Brick ι) (side : Side) : Side :=
  if brick.type = .monopole then .west else side

/-- The place of an edge inside the storage of its side. -/
def storageIndex (brick : Brick ι) (index : Nat) : Nat :=
  if brick.type = .multipole then index else 0

/-- The stored edges that belong to `side`. -/
def stored (brick : Brick ι) (side : Side) : List (Edge ι) :=
  (brick.sides (brick.storageSide side)).edges

/-- Does the pair of a side and an index name an edge of this brick? -/
def Names (brick : Brick ι) (side : Side) (index : Nat) : Prop :=
  (brick.type = .multipole ∨ index = 0) ∧ (brick.type = .monopole → side = opsGetSide brick)

instance (brick : Brick ι) (side : Side) (index : Nat) : Decidable (brick.Names side index) := by
  unfold Names
  infer_instance

/--
The brick and the pair index an edge links to.

An edge counts for a side and an index when the brick type gives it that
place: index 0 unless the brick is a multipole, and only the side it was
linked on for a monopole.
-/
def linkAt (brick : Brick ι) (side : Side) (index : Nat) : Option (ι × Nat) :=
  if brick.Names side index then
    match pgBrickGetEdge brick side index with
    | some ⟨some target, pairIndex⟩ => some (target, pairIndex)
    | _ => none
  else
    none

end Brick

variable {ι : Type}

section

variable (brick : Brick ι) (side : Side)

/-- The edge access goes through the storage of the brick. -/
theorem pgBrickGetEdge_eq (index : Nat) :
    pgBrickGetEdge brick side index = (brick.stored side)[brick.storageIndex index]? := by
  unfold pgBrickGetEdge Brick.stored Brick.storageSide Brick.storageIndex
  cases brick.type <;> simp [Brick.side, Brick.sides]

/-- Writing an edge rewrites one place of the storage. -/
theorem modifyEdge_eq (index : Nat) (change : Edge ι → Edge ι) :
    modifyEdge brick side index change = brick.setSide (brick.storageSide side)
        { brick.sides (brick.storageSide side) with
          edges :=
            (brick.stored side).modify (brick.storageIndex index) change } := by
  unfold modifyEdge Brick.stored Brick.storageSide Brick.storageIndex
  cases brick.type <;> simp [Brick.side, Brick.sides]

/-- Writing a link counter goes to the side that holds the storage. -/
theorem modifyNb_eq (change : Nat → Nat) :
    modifyNb brick side change = brick.setSide (brick.storageSide side)
        { brick.sides (brick.storageSide side) with
          nb := change (brick.sides (brick.storageSide side)).nb % 65536 } := by
  unfold modifyNb Brick.storageSide
  cases brick.type <;> simp [Brick.side, Brick.sides]

theorem getSide_eq : getSide brick side = brick.sides (brick.storageSide side) := by
  unfold getSide Brick.storageSide
  cases brick.type <;> simp [Brick.side, Brick.sides]

theorem isPlaceAvailable_eq :
    isPlaceAvailable brick side = decide ((getSide brick side).nb < (getSide brick side).max) := by
  unfold isPlaceAvailable getSide
  cases brick.type <;> rfl

end

/-- The number of edges in a list that carry a link. -/
def linkCount (edges : List (Edge ι)) : Nat :=
  edges.countP (fun edge => edge.link.isSome)

/-- The local invariant of one brick. -/
structure WellCounted (brick : Brick ι) : Prop where
  storage : ∀ side, (brick.sides side).edges.length =
        if brick.type = .multipole then (brick.sides side).max else 1
  bound : ∀ side, (brick.sides side).max < uint16Max ∧
        (brick.type ≠ .multipole → (brick.sides side).max ≤ 1)
  count : ∀ side, (brick.sides side).nb = linkCount (brick.sides side).edges
  room : ∀ side, (brick.sides side).nb ≤ (brick.sides side).max
  spare : brick.type = .monopole → linkCount brick.east.edges = 0

/-- The end of a new link: the edge is written and counted on both ledgers. -/
def attach (brick : Brick ι) (side : Side) (index : Nat) (target : ι) (pairIndex : Nat) : Brick ι :=
  let written :=
    modifyNb (modifyEdge brick side index (fun _ => ⟨some target, pairIndex⟩)) side (· + 1)
  { linkNotify written side with refcount := brick.refcount + 1 }

/-- The end of a broken link: the edge is reset and both ledgers go down. -/
def detach (brick : Brick ι) (side : Side) (index : Nat) : Brick ι :=
  let cleared := modifyNb (modifyEdge brick side index (fun _ => .empty)) side (· + 65535)
  { cleared with refcount := brick.refcount - 1 }

/-- An edge that exists and carries no link. -/
structure FreeSlot (brick : Brick ι) (side : Side) (index : Nat) : Prop where
  named : brick.type = .multipole ∨ index = 0
  free : ∃ edge, pgBrickGetEdge brick side index = some edge ∧ edge.link = none

variable {brick : Brick ι} {index : Nat} {side : Side}

/-- A multipole brick stores the edge of a free slot at the slot's index. -/
theorem FreeSlot.stored (free : FreeSlot brick side index) :
    ∃ edge, (brick.stored side)[brick.storageIndex index]? = some edge ∧ edge.link = none := by
  obtain ⟨edge, read, unlinked⟩ := free.free
  refine ⟨edge, ?_, unlinked⟩
  rw [← pgBrickGetEdge_eq]
  exact read

/-- Overwriting a place by a constant is setting it. -/
private theorem modify_const (edges : List (Edge ι)) (index : Nat) (edge : Edge ι) :
    edges.modify index (fun _ => edge) = edges.set index edge := by
  apply ext_getElem?
  intro place
  by_cases same : index = place
  · subst same
    rw [getElem?_modify_eq, getElem?_set_self']
    cases edges[index]? <;> rfl
  · rw [getElem?_modify_ne _ _ same, getElem?_set_ne same]

section

variable (brick : Brick ι) (side : Side) (index : Nat)

/-- The sides of an attached brick. -/
theorem sides_attach (target : ι) (pairIndex : Nat) (other : Side) :
    (attach brick side index target pairIndex).sides other = if other = brick.storageSide side then
        { brick.sides other with
          edges :=
            (brick.stored side).set (brick.storageIndex index) ⟨some target, pairIndex⟩
          nb := ((brick.sides other).nb + 1) % 65536 }
      else
        brick.sides other := by
  unfold attach linkNotify modifyNb modifyEdge Brick.stored Brick.storageSide Brick.storageIndex
  cases kind : brick.type <;> cases side <;> cases other <;>
    simp [kind, Brick.sides, Brick.setSide, Brick.side, modify_const]

/-- The sides of a detached brick. -/
theorem sides_detach (other : Side) :
    (detach brick side index).sides other = if other = brick.storageSide side then
        { brick.sides other with
          edges :=
            (brick.stored side).set (brick.storageIndex index) .empty
          nb := ((brick.sides other).nb + 65535) % 65536 }
      else
        brick.sides other := by
  unfold detach modifyNb modifyEdge Brick.stored Brick.storageSide Brick.storageIndex
  cases kind : brick.type <;> cases side <;> cases other <;>
    simp [kind, Brick.sides, Brick.setSide, Brick.side, modify_const]

@[simp] theorem type_attach (target : ι) (pairIndex : Nat)
    : (attach brick side index target pairIndex).type = brick.type := by
  unfold attach linkNotify modifyNb modifyEdge
  cases kind : brick.type <;> simp [kind]

@[simp] theorem type_detach : (detach brick side index).type = brick.type := by
  unfold detach modifyNb modifyEdge
  cases kind : brick.type <;> simp [kind]

@[simp] theorem refcount_attach (target : ι) (pairIndex : Nat)
    : (attach brick side index target pairIndex).refcount = brick.refcount + 1 :=
  rfl

@[simp] theorem refcount_detach : (detach brick side index).refcount = brick.refcount - 1 :=
  rfl

@[simp] theorem released_detach : (detach brick side index).released = brick.released := by
  simp only [detach, modifyNb_eq, modifyEdge_eq, Brick.setSide]
  split <;> split <;> rfl

/-- A monopole remembers the side it was attached on. -/
theorem opsGetSide_attach (target : ι) (pairIndex : Nat) (monopole : brick.type = .monopole) :
    opsGetSide (attach brick side index target pairIndex) = side := by
  simp [attach, linkNotify, modifyNb, modifyEdge, opsGetSide, monopole]

@[simp] theorem opsGetSide_detach : opsGetSide (detach brick side index) = opsGetSide brick := by
  unfold detach modifyNb modifyEdge opsGetSide
  cases kind : brick.type <;> simp [kind]

end

/-- An unlinked edge is no link of its brick. -/
theorem FreeSlot.linkAt_eq_none (free : FreeSlot brick side index) :
    brick.linkAt side index = none := by
  obtain ⟨⟨link, pairIndex⟩, read, unlinked⟩ := free.free
  simp only at unlinked
  subst unlinked
  simp [Brick.linkAt, read]

/-- A monopole with a free edge has no link on either side. -/
theorem FreeSlot.monopole_linkAt_eq_none (free : FreeSlot brick side index)
    (monopole : brick.type = .monopole) (otherSide : Side) (otherIndex : Nat) :
    brick.linkAt otherSide otherIndex = none := by
  obtain ⟨⟨link, pairIndex⟩, read, unlinked⟩ := free.free
  simp only at unlinked
  subst unlinked
  simp only [pgBrickGetEdge, monopole] at read
  simp [Brick.linkAt, pgBrickGetEdge, monopole, read]

/-- A brick of which one stored edge and the counter beside it were written. -/
structure Rewritten (brick after : Brick ι) (side : Side) (index : Nat) (edge : Edge ι)
    (nb : Nat) : Prop where
  type : after.type = brick.type
  sides : ∀ other, after.sides other = if other = brick.storageSide side then
      { brick.sides other with
        edges := (brick.stored side).set (brick.storageIndex index) edge, nb := nb }
    else brick.sides other

theorem rewritten_attach (brick : Brick ι) (side : Side) (index : Nat) (target : ι)
    (pairIndex : Nat) :
    Rewritten brick (attach brick side index target pairIndex) side index ⟨some target, pairIndex⟩
      (((brick.sides (brick.storageSide side)).nb + 1) % 65536) := by
  refine ⟨type_attach .., fun other => ?_⟩
  rw [sides_attach]
  split
  · rename_i same
    rw [same]
  · rfl

theorem rewritten_detach (brick : Brick ι) (side : Side) (index : Nat) :
    Rewritten brick (detach brick side index) side index .empty
      (((brick.sides (brick.storageSide side)).nb + 65535) % 65536) := by
  refine ⟨type_detach .., fun other => ?_⟩
  rw [sides_detach]
  split
  · rename_i same
    rw [same]
  · rfl

variable {edge old : Edge ι} {after : Brick ι}

section

variable {nb : Nat} (rewritten : Rewritten brick after side index edge nb)
  (read : (brick.stored side)[brick.storageIndex index]? = some old)

include rewritten read

/-- The written edge is read back, and all others are left. -/
theorem Rewritten.getEdge (otherSide : Side) (otherIndex : Nat) :
    pgBrickGetEdge after otherSide otherIndex =
      if brick.storageSide otherSide = brick.storageSide side ∧
          brick.storageIndex otherIndex = brick.storageIndex index then some edge
      else pgBrickGetEdge brick otherSide otherIndex := by
  obtain ⟨inside, _⟩ := List.getElem?_eq_some_iff.mp read
  have sameSide : after.storageSide otherSide = brick.storageSide otherSide := by
    simp [Brick.storageSide, rewritten.type]
  have sameIndex : after.storageIndex otherIndex = brick.storageIndex otherIndex := by
    simp [Brick.storageIndex, rewritten.type]
  rw [pgBrickGetEdge_eq, pgBrickGetEdge_eq, Brick.stored, sameSide, sameIndex, rewritten.sides]
  by_cases here : brick.storageSide otherSide = brick.storageSide side
  · rw [if_pos here, getElem?_set, if_pos inside]
    simp only [here, true_and, Brick.stored, eq_comm]
  · simp [here, Brick.stored]

/-- The written edge is the link at its place, and no other moves. -/
theorem Rewritten.linkAt (placed : brick.type = .multipole ∨ index = 0)
    (own : brick.type = .monopole → opsGetSide after = side)
    (alone : brick.type = .monopole → ∀ other ≠ side, brick.linkAt other 0 = none)
    (otherSide : Side) (otherIndex : Nat) :
    after.linkAt otherSide otherIndex = if otherSide = side ∧ otherIndex = index then
        edge.link.map (·, edge.pairIndex)
      else
        brick.linkAt otherSide otherIndex := by
  have edges := rewritten.getEdge read otherSide otherIndex
  unfold Brick.storageSide Brick.storageIndex at edges
  by_cases here : otherSide = side ∧ otherIndex = index
  · obtain ⟨rfl, rfl⟩ := here
    have named : after.Names otherSide otherIndex :=
      ⟨rewritten.type ▸ placed, fun monopole => (own (rewritten.type ▸ monopole)).symm⟩
    rcases edge with ⟨_ | target, pairIndex⟩ <;> simp [Brick.linkAt, named, edges]
  · rw [if_neg here]
    by_cases multipole : brick.type = .multipole
    · simp [Brick.linkAt, Brick.Names, rewritten.type, edges, multipole, here]
    obtain rfl : index = 0 := by simpa [multipole] using placed
    by_cases isFirst : otherIndex = 0
    · have apart : otherSide ≠ side := fun same => here ⟨same, isFirst⟩
      by_cases monopole : brick.type = .monopole
      · rw [isFirst, alone monopole otherSide apart]
        simp [Brick.linkAt, Brick.Names, rewritten.type, monopole, own monopole, apart]
      · simp [Brick.linkAt, Brick.Names, rewritten.type, edges, multipole, monopole, apart]
    · simp [Brick.linkAt, Brick.Names, rewritten.type, multipole, isFirst]

end

/-- After attaching, the written edge links to its target and no other moves. -/
theorem linkAt_attach (free : FreeSlot brick side index) (target : ι)
    (pairIndex : Nat) (otherSide : Side) (otherIndex : Nat) :
    (attach brick side index target pairIndex).linkAt otherSide otherIndex =
      if otherSide = side ∧ otherIndex = index then
        some (target, pairIndex)
      else
        brick.linkAt otherSide otherIndex := by
  obtain ⟨_, read, _⟩ := free.stored
  exact (rewritten_attach brick side index target pairIndex).linkAt read free.named
    (opsGetSide_attach _ _ _ _ _) (fun monopole _ _ => free.monopole_linkAt_eq_none monopole ..) ..

variable {target : ι} {pairIndex : Nat}

/-- A link names its edge and reads it from the brick. -/
theorem linkAt_eq_some_iff :
    brick.linkAt side index = some (target, pairIndex) ↔ brick.Names side index ∧
        pgBrickGetEdge brick side index = some ⟨some target, pairIndex⟩ := by
  unfold Brick.linkAt
  by_cases named : brick.Names side index
  · simp only [named, ↓reduceIte, true_and]
    cases read : pgBrickGetEdge brick side index with
    | none => simp
    | some edge =>
      rcases edge with ⟨link, pair⟩
      cases link <;> simp
  · simp [named]

/-- After detaching, the reset edge links nowhere and no other moves. -/
theorem linkAt_detach (linked : brick.linkAt side index = some (target, pairIndex))
    (otherSide : Side) (otherIndex : Nat) :
    (detach brick side index).linkAt otherSide otherIndex =
      if otherSide = side ∧ otherIndex = index then
        none
      else
        brick.linkAt otherSide otherIndex := by
  obtain ⟨⟨placed, sided⟩, read⟩ := linkAt_eq_some_iff.mp linked
  rw [pgBrickGetEdge_eq] at read
  refine (rewritten_detach brick side index).linkAt read placed (fun monopole => ?_)
    (fun monopole other differs => ?_) otherSide otherIndex
  · rw [opsGetSide_detach, sided monopole]
  · simp [Brick.linkAt, Brick.Names, monopole, ← sided monopole, differs]

/-- Counting in a list of which one place was overwritten. -/
private theorem countP_set_add {edges : List (Edge ι)} {place : Nat} {old : Edge ι}
    (holds : Edge ι → Bool) (read : edges[place]? = some old) (edge : Edge ι) :
    (edges.set place edge).countP holds + (if holds old then 1 else 0) =
      edges.countP holds + (if holds edge then 1 else 0) := by
  obtain ⟨inside, value⟩ := List.getElem?_eq_some_iff.mp read
  have counted := countP_set (p := holds) (a := edge) inside
  have positive : holds old = true → 0 < edges.countP holds := by
    intro held
    rw [countP_pos_iff]
    exact ⟨old, mem_of_getElem? read, held⟩
  rw [value] at counted
  rw [counted]
  by_cases held : holds old = true
  · have := positive held
    simp only [held, ↓reduceIte]
    omega
  · simp [held]

/-- A brick stays well counted if its counter follows what is written. -/
theorem Rewritten.wellCounted {nb : Nat}
    (rewritten : Rewritten brick after side index edge nb) (counted : WellCounted brick)
    (read : (brick.stored side)[brick.storageIndex index]? = some old)
    (follows : nb + (if old.link.isSome then 1 else 0) =
      (brick.sides (brick.storageSide side)).nb + (if edge.link.isSome then 1 else 0))
    (room : nb ≤ (brick.sides (brick.storageSide side)).max) : WellCounted after := by
  have written := countP_set_add (fun edge => edge.link.isSome) read edge
  have own := counted.count (brick.storageSide side)
  refine ⟨fun other => ?_, fun other => ?_, fun other => ?_, fun other => ?_, fun monopole => ?_⟩
  · rw [rewritten.sides, rewritten.type]
    split
    · rename_i same
      subst same
      simpa [Brick.stored] using counted.storage (brick.storageSide side)
    · exact counted.storage other
  · rw [rewritten.sides, rewritten.type]
    split <;> exact counted.bound other
  · rw [rewritten.sides]
    split
    · unfold linkCount at own ⊢
      change _ + _ = countP _ (brick.sides (brick.storageSide side)).edges + _ at written
      dsimp only
      omega
    · exact counted.count other
  · rw [rewritten.sides]
    split
    · rename_i same
      exact same ▸ room
    · exact counted.room other
  · rw [rewritten.type] at monopole
    have untouched := rewritten.sides .east
    simp only [Brick.storageSide, monopole, ↓reduceIte, reduceCtorEq, Brick.sides] at untouched
    rw [untouched]
    exact counted.spare monopole

/-- Attaching on a free slot keeps the brick well counted. -/
theorem WellCounted.attach (counted : WellCounted brick)
    (free : FreeSlot brick side index) (available : isPlaceAvailable brick side = true)
    (target : ι) (pairIndex : Nat) : WellCounted (attach brick side index target pairIndex) := by
  obtain ⟨edge, read, unlinked⟩ := free.stored
  rw [isPlaceAvailable_eq, getSide_eq] at available
  have space := of_decide_eq_true available
  have small := (counted.bound (brick.storageSide side)).1
  unfold uint16Max at small
  refine (rewritten_attach brick side index target pairIndex).wellCounted counted read ?_
    (by omega)
  simp only [unlinked, isSome_none, isSome_some, Bool.false_eq_true, ↓reduceIte]
  omega

section

variable (counted : WellCounted brick) (linked : brick.linkAt side index = some (target, pairIndex))

include counted linked

/-- Detaching a linked edge keeps the brick well counted. -/
theorem WellCounted.detach : WellCounted (detach brick side index) := by
  obtain ⟨_, read⟩ := linkAt_eq_some_iff.mp linked
  rw [pgBrickGetEdge_eq] at read
  have positive : 0 < linkCount (brick.stored side) :=
    countP_pos_iff.mpr ⟨_, mem_of_getElem? read, rfl⟩
  have own := counted.count (brick.storageSide side)
  have small := (counted.bound (brick.storageSide side)).1
  have fits := counted.room (brick.storageSide side)
  unfold uint16Max at small
  unfold Brick.stored at positive
  refine (rewritten_detach brick side index).wellCounted counted read ?_ (by omega)
  simp only [Edge.empty, isSome_none, isSome_some, Bool.false_eq_true, ↓reduceIte]
  omega

/-- Detaching lowers the counter of the side that stored the link. -/
theorem WellCounted.nb_detach (other : Side) :
    ((PacketGraph.detach brick side index).sides other).nb +
        (if other = brick.storageSide side then 1 else 0) =
      (brick.sides other).nb := by
  rw [sides_detach]
  split
  · rename_i isStored
    obtain ⟨_, read⟩ := linkAt_eq_some_iff.mp linked
    rw [pgBrickGetEdge_eq] at read
    have positive : 0 < linkCount (brick.stored side) :=
      countP_pos_iff.mpr ⟨_, mem_of_getElem? read, rfl⟩
    have own := counted.count other
    have fits := counted.room other
    have small := (counted.bound other).1
    unfold uint16Max at small
    unfold Brick.stored at positive
    rw [← isStored] at positive
    simp only
    omega
  · rfl

end

section Multipole

variable {brick : Brick ι}

/-- No slot of a side below a linked one is free. -/
def Brick.NoHoles (brick : Brick ι) (side : Side) : Prop :=
  ∀ index, (brick.linkAt side index).isSome = true →
    ∀ lower < index, (brick.linkAt side lower).isSome = true

section

variable (multipole : brick.type = .multipole)

include multipole

/-- The link of a multipole is found at its index. -/
theorem linkAt_of_multipole (side : Side) (index : Nat) :
    brick.linkAt side index = match (brick.sides side).edges[index]? with
      | some ⟨some target, pairIndex⟩ => some (target, pairIndex)
      | _ => none := by
  rcases isEdge : (brick.sides side).edges[index]? with
    _ | ⟨_ | target, pairIndex⟩ <;>
    simp [Brick.linkAt, Brick.Names, pgBrickGetEdge, multipole, isEdge]

/-- The link of a multipole is that of its stored edge. -/
theorem linkAt_isSome_of_multipole (side : Side) (index : Nat) :
    (brick.linkAt side index).isSome = true ↔ ∃ edge,
        (brick.sides side).edges[index]? = some edge ∧ edge.link.isSome = true := by
  rw [linkAt_of_multipole multipole]
  rcases (brick.sides side).edges[index]? with
    _ | ⟨_ | target, pairIndex⟩ <;> simp

/-- If all linked slots are below `nb`, then all slots below it are linked. -/
theorem WellCounted.linked_of_lt (counted : WellCounted brick) {side : Side}
    (dense : ∀ index, (brick.linkAt side index).isSome = true → index < (brick.sides side).nb)
    {index : Nat} (below : index < (brick.sides side).nb) :
    (brick.linkAt side index).isSome = true := by
  have count := counted.count side
  have room := counted.room side
  have size := counted.storage side
  simp only [multipole, ↓reduceIte] at size
  have split : linkCount (brick.sides side).edges =
        linkCount ((brick.sides side).edges.take (brick.sides side).nb) + linkCount
            ((brick.sides side).edges.drop (brick.sides side).nb) := by
    unfold linkCount
    rw [← countP_append, take_append_drop]
  have noneAbove : linkCount ((brick.sides side).edges.drop (brick.sides side).nb) = 0 := by
    unfold linkCount
    rw [countP_eq_zero]
    intro edge member linked
    obtain ⟨place, found⟩ := getElem?_of_mem member
    rw [getElem?_drop] at found
    have bound :=
      dense ((brick.sides side).nb + place) ((linkAt_isSome_of_multipole multipole side _).mpr
          ⟨edge, found, linked⟩)
    omega
  have takenLength : ((brick.sides side).edges.take (brick.sides side).nb).length =
        (brick.sides side).nb := by
    rw [length_take]
    omega
  have allBelow : linkCount ((brick.sides side).edges.take (brick.sides side).nb) =
        ((brick.sides side).edges.take (brick.sides side).nb).length := by
    rw [takenLength]
    omega
  unfold linkCount at allBelow
  rw [countP_eq_length] at allBelow
  obtain ⟨edge, found⟩ : ∃ edge, (brick.sides side).edges[index]? = some edge :=
    ⟨_, List.getElem?_eq_getElem (by omega)⟩
  have member : edge ∈ (brick.sides side).edges.take (brick.sides side).nb := by
    apply mem_of_getElem?
    rw [getElem?_take_of_lt below]
    exact found
  exact (linkAt_isSome_of_multipole multipole side index).mpr ⟨edge, found, allBelow edge member⟩

end

/-- The linked slots are below `nb` exactly if there are no holes. -/
theorem WellCounted.below_nb_iff (counted : WellCounted brick) (multipole : brick.type = .multipole)
    (side : Side) :
    (∀ index, (brick.linkAt side index).isSome = true → index < (brick.sides side).nb) ↔
      brick.NoHoles side := by
  constructor
  · intro dense index linked lower before
    exact counted.linked_of_lt multipole dense (before.trans (dense index linked))
  · intro noHoles index linked
    have upTo : ∀ lower ≤ index, ∃ edge, (brick.sides side).edges[lower]? = some edge ∧
          edge.link.isSome = true := by
      intro lower atMost
      rw [← linkAt_isSome_of_multipole multipole]
      rcases Nat.lt_or_eq_of_le atMost with before | rfl
      · exact noHoles index linked lower before
      · exact linked
    have size : index < (brick.sides side).edges.length := by
      obtain ⟨edge, found, _⟩ := upTo index le_rfl
      exact (List.getElem?_eq_some_iff.mp found).1
    have allTaken : linkCount ((brick.sides side).edges.take (index + 1)) =
          ((brick.sides side).edges.take (index + 1)).length := by
      unfold linkCount
      rw [countP_eq_length]
      intro edge member
      obtain ⟨place, isEdge⟩ := getElem?_of_mem member
      rw [getElem?_take] at isEdge
      split at isEdge
      · rename_i inside
        obtain ⟨found, isFound, hasLink⟩ := upTo place (by omega)
        rw [isEdge] at isFound
        cases isFound
        exact hasLink
      · cases isEdge
    have few : linkCount ((brick.sides side).edges.take (index + 1)) ≤
          linkCount (brick.sides side).edges :=
      List.Sublist.countP_le (take_sublist ..)
    rw [counted.count side]
    rw [allTaken, length_take] at few
    omega

end Multipole

section LinkCounts

variable [DecidableEq ι]

variable {brick : Brick ι} {index : Nat} {target : ι} {pairIndex : Nat} {side : Side}

/-- Detaching removes one link from the side that stored it. -/
theorem countSide_detach
    (linked : brick.linkAt side index = some (target, pairIndex)) (other : Side) (counted : ι) :
    countSide ((detach brick side index).sides other) counted +
        (if other = brick.storageSide side ∧ counted = target then 1 else 0) =
      countSide (brick.sides other) counted := by
  rw [sides_detach]
  split
  · rename_i isStored
    obtain ⟨_, read⟩ := linkAt_eq_some_iff.mp linked
    rw [pgBrickGetEdge_eq] at read
    have written := countP_set_add (fun edge => decide (edge.link = some counted)) read .empty
    simp only [Edge.empty, decide_eq_true_eq, some.injEq, reduceCtorEq,
      ↓reduceIte, Nat.add_zero] at written
    simp only [countSide, Edge.empty, isStored, true_and]
    rw [← Brick.stored, ← written]
    simp only [eq_comm]
  · rename_i notStored
    simp [notStored]

/-- The links to a target are counted in the storage of one or both sides. -/
private theorem linksCount_eq (brick : Brick ι) (side : Side) (target : ι) :
    pgBrickLinksCountGet brick target = countSide (brick.sides (brick.storageSide side)) target +
        (if brick.type = .monopole then 0
          else countSide (brick.sides (pgFlipSide side)) target) := by
  unfold pgBrickLinksCountGet Brick.storageSide
  cases kind : brick.type <;> cases side <;>
    simp [Brick.sides, Brick.side, pgFlipSide, Nat.add_comm]

/-- Overwriting one stored edge changes the links to a target by that edge. -/
private theorem linksCount_overwrite {changed : Brick ι} {edge old : Edge ι}
    {nb : Nat} (rewritten : Rewritten brick changed side index edge nb)
    (read : (brick.stored side)[brick.storageIndex index]? = some old) (target : ι) :
    pgBrickLinksCountGet changed target + (if old.link = some target then 1 else 0) =
      pgBrickLinksCountGet brick target + (if edge.link = some target then 1 else 0) := by
  have counted := countP_set_add (fun edge => decide (edge.link = some target)) read edge
  have sameStorage : changed.storageSide side = brick.storageSide side := by
    simp [Brick.storageSide, rewritten.type]
  rw [linksCount_eq changed side, linksCount_eq brick side, sameStorage, rewritten.type,
    rewritten.sides, if_pos rfl]
  simp only [decide_eq_true_eq] at counted
  unfold Brick.stored at counted
  by_cases monopole : brick.type = .monopole
  · simp only [countSide, Brick.stored, monopole, ↓reduceIte, Nat.add_zero]
    exact counted
  · have otherSide : pgFlipSide side ≠ brick.storageSide side := by
      simp [Brick.storageSide, monopole]
    rw [rewritten.sides, if_neg otherSide]
    simp only [countSide, Brick.stored, monopole, ↓reduceIte]
    omega

/-- Attaching adds one link to the target. -/
theorem linksCount_attach (free : FreeSlot brick side index) (target : ι)
    (pairIndex : Nat) (other : ι) :
    pgBrickLinksCountGet (attach brick side index target pairIndex) other =
      pgBrickLinksCountGet brick other + (if other = target then 1 else 0) := by
  obtain ⟨edge, read, unlinked⟩ := free.stored
  have counted :=
    linksCount_overwrite (rewritten_attach brick side index target pairIndex) read other
  simp only [unlinked, reduceCtorEq, ↓reduceIte, Nat.add_zero, some.injEq] at counted
  rw [counted]
  simp only [eq_comm]

section

variable (linked : brick.linkAt side index = some (target, pairIndex))

include linked

/-- Detaching removes one link to the brick behind the edge. -/
theorem linksCount_detach (other : ι) :
    pgBrickLinksCountGet (detach brick side index) other + (if other = target then 1 else 0) =
      pgBrickLinksCountGet brick other := by
  obtain ⟨_, read⟩ := linkAt_eq_some_iff.mp linked
  rw [pgBrickGetEdge_eq] at read
  have counted := linksCount_overwrite (rewritten_detach ..) read other
  simp only [Edge.empty, reduceCtorEq, ↓reduceIte, Nat.add_zero, some.injEq] at counted
  rw [← counted]
  simp only [eq_comm]

theorem linksCount_pos : 0 < pgBrickLinksCountGet brick target := by
  have counted := linksCount_detach linked target
  simp only [↓reduceIte] at counted
  omega

end

end LinkCounts

end PacketGraph
