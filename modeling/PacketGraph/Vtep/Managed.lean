import PacketGraph.Vtep.Upkeep

namespace PacketGraph

open BitMap BitScan Effects Function Option TransitionSystem

/-!
# The shape of the ports of a vtep

The last management operation, `pg_vtep_unset_mac`, and what holds of the
ports of a vtep in all runs, whatever fails in them: a port that has a VNI is
attached, an attached port is linked and carries a valid VNI, and the tables
that are in use are well formed.
-/

variable {ι τ V : Type} {version : IpVersion}

section Unset

/--
`pg_mac_table_elem_unset` on `mac_to_dst` of a port.  A table of zeroed memory
has no entry.
-/
def unsetInTable (i : Nat) (mac : Mac) : VtepM ι version Int := do
  let world ← get
  match (world.state.ports i).macToDst with
  | .absent => pure (-1)
  | .freed => throw .freedTable
  | .live table => do
      modifyPort i (fun port => { port with macToDst := .live (pgMacTableElemUnset table mac).2 })
      pure (pgMacTableElemUnset table mac).1

/--
The rounds of `pg_vtep_unset_mac`.  Every round looks at the port whose number
is the VNI, whose place may be beyond the array of ports, and compares its VNI
as it is kept with the VNI as it is given.
-/
def unsetRounds (brick : Brick ι) (vni : BitVec 32) (mac : BitVec 48) :
    List Nat → VtepM ι version Int
  | [] => pure (-1)
  | _ :: rest => do
      let world ← get
      if (brick.sides (pgFlipSide world.state.output)).max ≤ vni.toNat then
        throw (.aborted .fault)
      else if (world.state.ports vni.toNat).vni = vni then
        unsetInTable vni.toNat (mac.setWidth 64)
      else
        unsetRounds brick vni mac rest

/-- `pg_vtep_unset_mac`. -/
def pgVtepUnsetMac (brick : Brick ι) (vni : BitVec 32) (mac : BitVec 48) : VtepM ι version Int := do
  let world ← get
  unsetRounds brick vni mac (List.range (brick.sides (pgFlipSide world.state.output)).nb)

theorem unsetInTable_upheld {inBurst : Bool} {start : VtepState version} (i : Nat) (mac : Mac) :
    KeepsAlways (Upheld inBurst start) (unsetInTable i mac : VtepM ι version Int) := by
  refine Spec.read (fun seen upheld => ?_)
  cases isSlot : (seen.state.ports i).macToDst with
  | absent => exact Spec.pure (fun _ same => same ▸ upheld)
  | freed => exact Spec.throw (fun _ same => same ▸ upheld)
  | live table =>
    have unsets : Spec (fun world => world = seen) (modifyPort i (fun port =>
              { port with macToDst := .live (pgMacTableElemUnset table mac).2 }) :
            VtepM ι version Unit)
          (fun _ => Upheld inBurst start) (fun _ => Upheld inBurst start) := by
      refine Spec.modify ?_
      rintro _ rfl
      exact upheld.withPort (.forget mac isSlot)
    exact Spec.bind unsets (fun _ => Keeps.pure _)

theorem pgVtepUnsetMac_upheld {inBurst : Bool} {start : VtepState version} (brick : Brick ι)
    (vni : BitVec 32) (mac : BitVec 48) :
    KeepsAlways (Upheld inBurst start) (pgVtepUnsetMac brick vni mac : VtepM ι version Int) := by
  refine Keeps.read (fun seen _ => ?_)
  generalize List.range _ = rounds
  induction rounds with
  | nil => exact Keeps.pure _
  | cons round rest ih =>
    refine Keeps.read (fun world _ => ?_)
    split
    · exact Keeps.throw (fun _ upheld => upheld)
    split
    · exact unsetInTable_upheld _ _
    · exact ih

end Unset

section Shape

/-- What holds of a port of a vtep in all runs. -/
structure PortShape (brick : Brick ι) (output : Side) (i : Nat) (port : VtepPort version) :
    Prop where
  attached : port.vni ≠ 0#32 → port.Attached
  valid : port.Attached → ∃ vni, isVniValid vni = true ∧ port.vni = vniField vni
  linked : port.Attached → (brick.linkAt (pgFlipSide output) i).isSome = true
  bare : ¬ port.Attached → port.knownMac = .absent ∧ port.deadTables.getLsbD 1 = false
  macToDst : ∀ table, port.macToDst = .live table → table.WellFormed
  knownMac : ∀ table, port.knownMac = .live table → table.WellFormed

theorem portShape_zero (brick : Brick ι) (output : Side) (i : Nat) :
    PortShape brick output i (VtepPort.zero version) where
  attached := fun isSet => absurd rfl isSet
  valid := fun attached => absurd attached not_attached_zero
  linked := fun attached => absurd attached not_attached_zero
  bare := fun _ => ⟨rfl, by simp [VtepPort.zero]⟩
  macToDst := fun _ isLive => nomatch isLive
  knownMac := fun _ isLive => nomatch isLive

variable {table : MacTable V}

theorem zeroTable_wellFormed : (MacTable.zero V).WellFormed :=
  emptyTable_wellFormed

theorem zeroTable_contents (key : MacKey) : (MacTable.zero V).contents key = none := by
  rw [MacTable.contents_eq, if_neg]
  simp [MacTable.zero, testBit]

/-- Refreshing an entry of a sub-table. -/
theorem SubTable.contents_refreshed (inner : SubTable (DestAddresses version)) (tick : BitVec 64)
    (part2 other : Nat) :
    (inner.refreshed tick part2).contents other = if other = part2 then
        (inner.contents other).map (fun entry => { entry with lifetime := tick })
      else
        inner.contents other := by
  unfold SubTable.contents SubTable.refreshed
  by_cases isSet : pgMacTableIsSet inner.mask other = true
  · cases isEntries : inner.entries with
    | none => simp [isSet]
    | some entries =>
      by_cases here : other = part2
      · subst here
        simp [isSet]
      · simp [isSet, here]
  · simp [isSet]

theorem SubTable.WellFormed.refreshed {inner : SubTable (DestAddresses version)}
    (wellFormed : inner.WellFormed) (tick : BitVec 64) (part2 : Nat) :
    (inner.refreshed tick part2).WellFormed := by
  refine ⟨wellFormed.inside, fun other isSet => ?_⟩
  obtain ⟨entry, written⟩ := wellFormed.written other isSet
  obtain ⟨entries, isEntries, isEntry⟩ := bind_eq_some_iff.mp written
  unfold SubTable.refreshed
  rw [isEntries]
  by_cases here : other = part2
  · subst here
    exact ⟨{ entry with lifetime := tick }, by simp [isEntry]⟩
  · exact ⟨entry, by simp [here, isEntry]⟩

/-- Refreshing an entry changes its own lifetime only. -/
theorem MacTable.refreshed_spec {table : MacTable (DestAddresses version)}
    (wellFormed : table.WellFormed) (tick : BitVec 64) (mac : Mac) :
    (table.refreshed tick mac).WellFormed ∧ ∀ key,
        (table.refreshed tick mac).contents key = if key = macKey mac then
            (table.contents key).map (fun entry => { entry with lifetime := tick })
          else
            table.contents key := by
  have sub_eq (part1 : Nat) (isSet : testBit table.mask part1 = true) :
      (table.refreshed tick mac).sub part1 = if part1 = pgMacTablePart1 mac then
          (table.sub part1).refreshed tick (pgMacTablePart2 mac)
        else
          table.sub part1 := by
    obtain ⟨inner, found, _⟩ := wellFormed.allocated part1 isSet
    unfold MacTable.refreshed MacTable.sub
    by_cases here : part1 = pgMacTablePart1 mac
    · subst here
      simp [found]
    · simp [here]
  refine ⟨⟨wellFormed.inside, fun part1 isSet => ?_⟩, fun key => ?_⟩
  · obtain ⟨inner, found, innerFormed⟩ := wellFormed.allocated part1 isSet
    unfold MacTable.refreshed
    by_cases here : part1 = pgMacTablePart1 mac
    · subst here
      exact ⟨inner.refreshed tick (pgMacTablePart2 mac), by simp [found],
        innerFormed.refreshed tick _⟩
    · exact ⟨inner, by simp [here, found], innerFormed⟩
  · rw [MacTable.contents_eq, MacTable.contents_eq]
    by_cases isSet : testBit table.mask key.1 = true
    · have stillSet : testBit (table.refreshed tick mac).mask key.1 = true := isSet
      rw [if_pos stillSet, if_pos isSet, sub_eq key.1 isSet]
      have same_iff : key = macKey mac ↔
            key.1 = pgMacTablePart1 mac ∧ key.2 = pgMacTablePart2 mac :=
        Prod.ext_iff
      by_cases here : key.1 = pgMacTablePart1 mac
      · rw [if_pos here, SubTable.contents_refreshed]
        simp only [same_iff, here, true_and]
      · rw [if_neg here, if_neg (fun same => here (same_iff.mp same).1)]
    · have stillUnset : ¬ testBit (table.refreshed tick mac).mask key.1 = true := isSet
      rw [if_neg stillUnset, if_neg isSet, map_none, ite_self]

/-- A slot that holds a table reads as a well formed one. -/
theorem TableSlot.reads_wellFormed {slot : TableSlot V}
    (formed : ∀ table, slot = .live table → table.WellFormed) (reads : slot.reads = some table) :
    table.WellFormed ∧ slot.contents = table.contents := by
  cases slot with
  | absent =>
    cases reads
    refine ⟨zeroTable_wellFormed, funext fun key => ?_⟩
    exact (zeroTable_contents key).symm
  | live known =>
    cases reads
    exact ⟨formed _ rfl, rfl⟩
  | freed => cases reads

variable {port after : VtepPort version} {tick : BitVec 64} {changed : Option MacKey}

/--
An elementary change keeps the table of destinations well formed.  The entry
that is learnt or sent to has the tick as its lifetime, and every other entry
was there before.
-/
theorem PortChange.macs (formed : ∀ table, port.macToDst = .live table → table.WellFormed)
    (change : PortChange tick port changed after) :
    (∀ table, after.macToDst = .live table → table.WellFormed) ∧
      ∀ key entry, after.macToDst.contents key = some entry →
        if changed = some key then
          entry.lifetime = tick
        else
          port.macToDst.contents key = some entry := by
  -- What the new table has is enough, as nothing else stands behind the slot.
  have live {after : MacTable (DestAddresses version)} (wellFormed : after.WellFormed)
      (entries : ∀ key entry, after.contents key = some entry →
        if changed = some key then
          entry.lifetime = tick
        else
          port.macToDst.contents key = some entry) :
      (∀ other, TableSlot.live after = .live other → other.WellFormed) ∧
        ∀ key entry, (TableSlot.live after).contents key = some entry →
          if changed = some key then
            entry.lifetime = tick
          else
            port.macToDst.contents key = some entry := by
    refine ⟨?_, entries⟩
    rintro _ ⟨rfl⟩
    exact wellFormed
  have unstamped {key : MacKey} {isStamped isKept : Prop} (kept : isKept) :
      if none = some key then isStamped else isKept := by
    rw [if_neg (by simp)]
    exact kept
  cases change with
  | @learn table left malloc mac entry isLive isTick stored =>
    obtain ⟨stays, contents⟩ := macTableSet_eq_stored (formed _ isLive) stored
    refine live stays (fun key there isThere => ?_)
    rw [contents] at isThere
    split at isThere
    · rename_i isKey
      cases isThere
      rwa [if_pos (congrArg some isKey.symm)]
    · rename_i isOther
      rwa [isLive, if_neg (fun same => isOther (some_inj.mp same).symm)]
  | grow isLive raised =>
    obtain ⟨stays, contents⟩ := macTableSet_eq_raised (formed _ isLive) raised
    refine live stays (fun key there isThere => unstamped ?_)
    rw [contents] at isThere
    rwa [isLive]
  | @refresh table mac reads =>
    obtain ⟨wellFormed, isContents⟩ := TableSlot.reads_wellFormed formed reads
    obtain ⟨stays, contents⟩ := MacTable.refreshed_spec wellFormed tick mac
    refine live stays (fun key there isThere => ?_)
    rw [contents] at isThere
    split at isThere
    · rename_i isKey
      obtain ⟨old, _, rfl⟩ := map_eq_some_iff.mp isThere
      rw [if_pos (congrArg some isKey.symm)]
    · rename_i isOther
      rwa [isContents, if_neg (fun same => isOther (some_inj.mp same).symm)]
  | know | flag | makeKnown | freeKnown => exact ⟨formed, fun _ _ isThere => unstamped isThere⟩
  | make =>
    refine live zeroTable_wellFormed (fun key there isThere => ?_)
    rw [zeroTable_contents] at isThere
    cases isThere
  | free =>
    refine ⟨fun _ isLive => ?_, fun _ _ isThere => ?_⟩
    · cases isLive
    · cases isThere
  | clear isLive cleared =>
    obtain ⟨emptied, isEmptied, wellFormed, contents⟩ := pgMacTableClear_spec (formed _ isLive)
    rw [cleared] at isEmptied
    cases isEmptied
    refine live wellFormed (fun key there isThere => ?_)
    rw [contents] at isThere
    cases isThere
  | clean maxLife isLive =>
    have result := foreachElem_spec (formed _ isLive) (agedOut tick maxLife)
    refine live result.wellFormed (fun key there isThere => unstamped ?_)
    rw [result.contents] at isThere
    split at isThere
    · cases isThere
    · rwa [isLive]
  | forget mac isLive =>
    obtain ⟨wellFormed, contents, _⟩ := macTableUnset_spec (formed _ isLive) mac
    refine live wellFormed (fun key there isThere => unstamped ?_)
    have isThere := (contents key).symm.trans isThere
    split at isThere
    · cases isThere
    · rwa [isLive]

variable {brick : Brick ι} {i : Nat}

variable {output : Side}

/-- Elementary changes keep the shape of a port. -/
theorem PortShape.change (shape : PortShape brick output i port)
    (change : PortChange tick port changed after) : PortShape brick output i after := by
  have withMacs {slot : TableSlot (DestAddresses version)}
      (formed : ∀ table, slot = .live table → table.WellFormed) :
      PortShape brick output i { port with macToDst := slot } :=
    ⟨shape.attached, shape.valid, shape.linked, shape.bare, formed, shape.knownMac⟩
  have withKnown {slot : TableSlot Unit} (attached : port.Attached)
      (formed : ∀ table, slot = .live table → table.WellFormed) :
      PortShape brick output i { port with knownMac := slot } :=
    ⟨shape.attached, shape.valid, shape.linked,
      fun bare => absurd attached bare, shape.macToDst, formed⟩
  have inUse (isThere : port.knownMac ≠ .absent) : port.Attached := by
    by_contra bare
    exact isThere (shape.bare bare).1
  have live {table : MacTable Unit} (wellFormed : table.WellFormed) :
      ∀ other, TableSlot.live table = .live other → other.WellFormed := by
    rintro _ ⟨rfl⟩
    exact wellFormed
  have macs := (change.macs shape.macToDst).1
  cases change with
  | learn | grow | refresh => exact withMacs macs
  | know isLive left =>
    have wellFormed := shape.knownMac _ isLive
    refine withKnown (inUse (by rw [isLive]; simp)) (live ?_)
    exact left.elim (fun stored => (macTableSet_eq_stored wellFormed stored).1)
      (fun raised => (macTableSet_eq_raised wellFormed raised).1)
  | @flag deadTables allowed =>
    refine ⟨shape.attached, shape.valid, shape.linked, fun bare => ?_,
      shape.macToDst, shape.knownMac⟩
    obtain ⟨isAbsent, notDead⟩ := shape.bare bare
    refine ⟨isAbsent, Bool.eq_false_iff.mpr (fun isSet => ?_)⟩
    rcases allowed isSet with wasSet | ⟨table, isLive⟩
    · rw [notDead] at wasSet
      cases wasSet
    · rw [isAbsent] at isLive
      cases isLive
  | make => exact withMacs macs
  | makeKnown allowed =>
    refine withKnown ?_ (live zeroTable_wellFormed)
    by_contra bare
    rcases allowed with isSet | attached
    · rw [(shape.bare bare).2] at isSet
      cases isSet
    · exact bare attached
  | free => exact withMacs macs
  | freeKnown isThere => exact withKnown (inUse isThere) (fun _ isLive => nomatch isLive)
  | clear | clean | forget => exact withMacs macs

theorem PortShape.changes {keys : List MacKey} (shape : PortShape brick output i port)
    (changes : PortChanges tick port keys after) : PortShape brick output i after := by
  induction changes with
  | refl => exact shape
  | tail _ change ih => exact ih.change change

/-- A world that is upheld from ports of that shape has such ports. -/
theorem Upheld.shape {inBurst : Bool} {start : VtepState version} {world : VtepWorld ι version}
    (upheld : Upheld inBurst start world)
    (shapes : ∀ i, PortShape brick start.output i (start.ports i)) :
    ∀ i, PortShape brick world.state.output i (world.state.ports i) := by
  have sameOutput := congrArg VtepState.output upheld.config
  change world.state.output = start.output at sameOutput
  intro i
  rw [sameOutput]
  exact (shapes i).changes (upheld.ports i)

/-- The ports of a vtep that runs have the shape of ports. -/
structure HostShape (brick : Brick ι) (host : VtepHost version) : Prop where
  multipole : brick.type = .multipole
  ports : host.stopped = none → ∀ i, PortShape brick host.state.output i (host.state.ports i)

variable {host : VtepHost version}

/-- The vtep that an operation leaves has ports in shape if its world has. -/
theorem HostShape.left {α : Type} {result : EStateM.Result VtepStop (VtepWorld ι version) α}
    (multipole : brick.type = .multipole)
    (shapes : ∀ i, PortShape brick (finalState result).state.output i ((finalState
        result).state.ports i)) : HostShape brick (host.left result) := by
  refine ⟨multipole, fun running => ?_⟩
  cases result with
  | ok value left => exact shapes
  | error reason left => cases running

/-- An edge that is found is linked. -/
theorem linkAt_of_edgeTo [DecidableEq ι] {side : Side} {next : ι}
    (multipole : brick.type = .multipole) (found : edgeTo (brick.sides side) next = some i) :
    (brick.linkAt side i).isSome = true := by
  unfold edgeTo at found
  have linked := List.find?_some found
  rw [decide_eq_true_eq] at linked
  obtain ⟨edge, isEdge, isLink⟩ := bind_eq_some_iff.mp linked
  exact (linkAt_isSome_of_multipole multipole side i).mpr ⟨edge, isEdge, by rw [isLink]; rfl⟩

theorem operation_shape [DecidableEq ι] (shape : HostShape brick host)
    (running : host.stopped = none) (op : VtepOp ι version) (around : Surroundings) :
    HostShape brick (host.left (op.run brick host around)) := by
  refine HostShape.left shape.multipole ?_
  obtain ⟨start, starts, upheld⟩ := operation_upheld brick host op around
  refine upheld.shape ?_
  have shapes := shape.ports running
  cases op with
  | burst fromSide edgeIndex pkts pktsMask =>
    rw [show start = _ from starts]
    exact shapes
  | addVni neighbor vni multicastIp =>
    rcases starts with rfl | ⟨i, takes, rfl⟩
    · exact shapes
    · intro k
      show PortShape brick host.state.output k (update host.state.ports i _ k)
      by_cases here : k = i
      · subst here
        rw [update_self]
        obtain ⟨next, _, found⟩ := takes.linked
        exact
          { attached := fun _ => takes.multicast
            valid := fun _ => ⟨vni, takes.valid, rfl⟩
            linked := fun _ => linkAt_of_edgeTo shape.multipole found
            bare := fun bare => absurd takes.multicast bare
            macToDst := (shapes k).macToDst
            knownMac := (shapes k).knownMac }
      · rw [update_of_ne here]
        exact shapes k
  | addMac vni mac | cleanAllMac portId | cleanupMac portId =>
    rw [show start = _ from starts]
    exact shapes

/-- The notification of a breaking link takes the VNI of the port back. -/
theorem notified_upheld (brick : Brick ι) (host : VtepHost version) (side : Side) (index : Nat) :
    Spec (fun world => world = host.world (host.leaves 0) (fun _ => Mbuf.zero))
      (vtepUnlinkNotify brick side index : VtepM ι version Unit)
      (fun _ left => Upheld false host.state left ∧ (side ≠ host.state.output →
              left.errp = none → ¬ (left.state.ports index).Attached) ∨ ∃ middle,
            Upheld false host.state middle ∧ left = middle.withPort index (VtepPort.zero version))
      (fun _ => Upheld false host.state) := by
  refine Spec.read (fun seen isSeen => ?_)
  have upheld : Upheld false host.state seen := by
    rw [isSeen]
    exact upheld_refl (host.world (host.leaves 0) (fun _ => Mbuf.zero)) rfl
  have sameOutput : seen.state.output = host.state.output := by
    rw [isSeen]
    rfl
  split
  · rename_i isOutput
    refine Spec.pure ?_
    rintro _ rfl
    exact .inl ⟨upheld, fun inner => absurd (isOutput.trans sameOutput) inner⟩
  · refine ((doRemoveVni_upheld brick index).startingAt upheld).ending ?_
    rintro _ left (⟨kept, bare⟩ | removed)
    · exact .inl ⟨kept, fun _ => bare⟩
    · exact .inr removed

/-- A link that breaks keeps the shape of the ports of a vtep. -/
theorem unlinkNotify_shape {side : Side} {index : Nat} (shape : HostShape brick host) :
    HostShape brick ((vtepOps ι version).unlinkNotify brick host side index).1 ∧
      (((vtepOps ι version).unlinkNotify brick host side index).2 = none →
        ∀ link, brick.linkAt side index = some link → HostShape (detach brick side index)
            ((vtepOps ι version).unlinkNotify brick host side index).1) := by
  have detached := type_detach brick side index
  cases running : host.stopped with
  | some reason =>
    simp only [vtepOps, running, isSome_some, if_true]
    exact ⟨shape, fun _ _ _ => ⟨detached.trans shape.multipole,
      fun isNone => absurd (running.symm.trans isNone) (by simp)⟩⟩
  | none =>
    have spec := notified_upheld brick host side index
    simp only [vtepOps, running, isSome_none, Bool.false_eq_true, if_false]
    unfold VtepHost.notified
    cases ran : vtepUnlinkNotify brick side index
        (host.world (host.leaves 0) (fun _ => Mbuf.zero)) with
    | error reason left =>
      exact ⟨⟨shape.multipole, fun isNone => nomatch isNone⟩,
        fun _ _ _ => ⟨detached.trans shape.multipole, fun isNone => nomatch isNone⟩⟩
    | ok value left =>
      have ends := spec.returned rfl ran
      have shapes : ∀ i, PortShape brick left.state.output i (left.state.ports i) := by
        rcases ends with ⟨kept, _⟩ | ⟨middle, kept, rfl⟩
        · exact kept.shape (shape.ports running)
        · intro i
          show PortShape brick middle.state.output i (update middle.state.ports index _ i)
          by_cases here : i = index
          · subst here
            rw [update_self]
            exact portShape_zero brick _ i
          · rw [update_of_ne here]
            exact kept.shape (shape.ports running) i
      refine ⟨⟨shape.multipole, fun _ => shapes⟩, fun noError link linked =>
        ⟨detached.trans shape.multipole, fun _ i => ?_⟩⟩
      have there := shapes i
      refine ⟨there.attached, there.valid, fun attached => ?_, there.bare,
        there.macToDst, there.knownMac⟩
      show ((detach brick side index).linkAt (pgFlipSide left.state.output) i).isSome = true
      rw [linkAt_detach linked]
      split
      · rename_i here
        obtain ⟨isSide, rfl⟩ := here
        refine absurd (show (left.state.ports i).Attached from attached) ?_
        rcases ends with ⟨kept, bare⟩ | ⟨middle, _, rfl⟩
        · have sameOutput := congrArg VtepState.output kept.config
          change left.state.output = host.state.output at sameOutput
          refine bare ?_ noError
          rw [← isSide, sameOutput]
          exact pgFlipSide_ne _
        · rw [ports_withPort_self]
          exact not_attached_zero
      · exact there.linked attached

end Shape

section Runs

/-- The steps of a run, with all management operations. -/
inductive ManagedEvent (ι : Type) (version : IpVersion) where
  | event (event : VtepEvent ι version)
  | unsetMac (target : ι) (vni : BitVec 32) (mac : BitVec 48)

variable [DecidableEq ι]

/-- The runs of a graph with vteps, with all management operations. -/
def managedSystem (others : BrickOps ι τ) :
    System (Graph ι (Node (VtepHost version) τ)) (ManagedEvent ι version) where
  initial := (vtepSystem others).initial
  step := fun before event after => match event with
    | .event event => (vtepSystem others).step before event after
    | .unsetMac target vni mac =>
      ∃ host around, before.priv target = .own host ∧ host.stopped = none ∧ after = { before with
              priv :=
                update before.priv target (.own (host.left
                      (pgVtepUnsetMac (before.brick target) vni mac
                        (host.world around (fun _ => Mbuf.zero) : VtepWorld ι version)))) }

variable {others : BrickOps ι τ} {graph : Graph ι (Node (VtepHost version) τ)}

/-- The runs without `pg_vtep_unset_mac` are some of the runs. -/
theorem managed_of_vtep (reachable : (vtepSystem others).Reachable graph) :
    (managedSystem others).Reachable graph := by
  refine reachable.invariant ?_ ?_
  · intro start made
    exact .initial made
  · intro before event after reached stepped
    exact .step (.event event) reached stepped

/-- The ports of every vtep keep their shape in every run. -/
theorem managedGraph_shape [Fintype ι] (reachable : (managedSystem others).Reachable graph) :
    NodeGraph HostShape graph := by
  refine reachable.invariant ?_ ?_
  · intro start made
    have isInitial : (vtepSystem others).initial start := made
    refine vtepGraph_initial ?_ isInitial
    intro brick output ip mac udpDstPort flags leaves _ multipole _
    exact ⟨multipole, fun _ i => portShape_zero brick output i⟩
  · intro before event after holds stepped
    cases event with
    | event event =>
      have step : (vtepSystem others).step before event after := stepped
      have free : OperatesUnder (fun _ _ _ _ => True) before event := by
        cases event with
        | call call => trivial
        | operate target op around => exact fun _ _ => trivial
      refine vtepGraph_step ?_ ?_ ?_ holds free step
      · intro brick host side index target pairIndex shape free
        refine ⟨(type_attach ..).trans shape.multipole, fun running i => ?_⟩
        have there := shape.ports running i
        refine ⟨there.attached, there.valid, fun attached => ?_, there.bare,
          there.macToDst, there.knownMac⟩
        rw [linkAt_attach free]
        split
        · rfl
        · exact there.linked attached
      · exact ⟨fun shape _ => (unlinkNotify_shape shape).1, fun shape linked quiet =>
            (unlinkNotify_shape shape).2 quiet _ linked⟩
      · exact fun _ _ op around _ shape running _ _ => operation_shape shape running op around
    | unsetMac target vni mac =>
      obtain ⟨host, around, isHost, running, rfl⟩ := stepped
      refine holds.update isHost (fun _ shape => ?_)
      refine HostShape.left shape.multipole ?_
      refine Upheld.shape (KeepsAlways.finalState
        (pgVtepUnsetMac_upheld _ vni mac) (@upheld_refl _ _ false _ rfl)) ?_
      exact shape.ports running

end Runs

end PacketGraph
