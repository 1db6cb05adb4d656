import PacketGraph.Vtep.Managed
import PacketGraph.Vtep.Destination

namespace PacketGraph

open BitMap BitScan Effects Function List TransitionSystem

/-!
# Finding a port by its VNI

`pg_vtep_add_mac` and `pg_vtep_unset_mac` are given a VNI and work on the port
that carries it.  The first looks at the slots below `nb`, in which a linked
port above a freed slot is not found and an unset port passes for VNI 0.  The
second does not look for the VNI at all: it takes the VNI for the number of
the port.
-/

variable {ι τ V : Type} {version : IpVersion}

section Specification

/-- A linked port of a vtep that carries a VNI. -/
structure CarriesVni (brick : Brick ι) (state : VtepState version) (vni : BitVec 32) (i : Nat) :
    Prop where
  linked : (brick.linkAt (pgFlipSide state.output) i).isSome = true
  attached : (state.ports i).Attached
  isVni : (state.ports i).vni = vniField vni

/-- One port has another table, and everything else is as it was. -/
def OnlyTable (which : PortTable version V) (before after : VtepState version) (i : Nat)
    (contents : MacKey → Option V) : Prop :=
  ∃ table, after = { before with
          ports :=
            update before.ports i (which.put (before.ports i) (.live table)) } ∧
      table.contents = contents

/--
`pg_vtep_add_mac` returns, with 0 exactly if a linked port carries the VNI, and
then adds the MAC to the known ones of such a port and changes nothing else.
-/
def AddsByVni (brick : Brick ι) (host : VtepHost version) (vni : BitVec 32) (mac : BitVec 48)
    (around : Surroundings) : Prop :=
  ∃ ret left,
    pgVtepAddMac brick vni mac
      (host.world around (fun _ => Mbuf.zero) : VtepWorld ι version) = .ok ret left ∧
    (ret = 0 ↔ ∃ i, CarriesVni brick host.state vni i) ∧
    (ret = 0 → ∃ i,
      CarriesVni brick host.state vni i ∧
      OnlyTable knownMac host.state left.state i
        (update (host.state.ports i).knownMac.contents (macKey (mac.setWidth 64)) (some ())))

/-- A port has an entry for a MAC. -/
def HasEntry (state : VtepState version) (i : Nat) (mac : BitVec 48) : Prop :=
  ((state.ports i).macToDst.contents (macKey (mac.setWidth 64))).isSome = true

instance (state : VtepState version) (i : Nat) (mac : BitVec 48) :
    Decidable (HasEntry state i mac) := by
  unfold HasEntry
  infer_instance

/--
`pg_vtep_unset_mac` returns, with 0 exactly if a linked port carries the VNI
and has an entry for the MAC, and then removes the entry from such a port and
changes nothing else.
-/
def UnsetsByVni (brick : Brick ι) (host : VtepHost version) (vni : BitVec 32) (mac : BitVec 48)
    (around : Surroundings) : Prop :=
  ∃ ret left,
    pgVtepUnsetMac brick vni mac
      (host.world around (fun _ => Mbuf.zero) : VtepWorld ι version) = .ok ret left ∧
    (ret = 0 ↔ ∃ i, CarriesVni brick host.state vni i ∧ HasEntry host.state i mac) ∧
    (ret = 0 → ∃ i,
      CarriesVni brick host.state vni i ∧
      HasEntry host.state i mac ∧
      OnlyTable macToDst host.state left.state i
        (update (host.state.ports i).macToDst.contents (macKey (mac.setWidth 64)) none))

end Specification

section Adding

/-- A table takes an entry: its sub-table is there, or memory for it is. -/
def TakesEntry (malloc : Malloc) (table : MacTable V) (mac : Mac) : Prop :=
  if pgMacTableIsSet table.mask (pgMacTablePart1 mac) then
    ((table.subs (pgMacTablePart1 mac)).bind SubTable.entries).isSome = true
  else
    malloc 0 = true ∧ malloc 1 = true

theorem macTableSet_stored_iff (malloc : Malloc) (table : MacTable V) (mac : Mac) (entry : V) :
    (∃ after, (macTableSet malloc table mac entry).1 = .stored after) ↔
      TakesEntry malloc table mac := by
  unfold macTableSet TakesEntry
  dsimp only
  split
  · unfold storeEntry
    cases isSub : table.subs (pgMacTablePart1 mac) with
    | none => simp
    | some inner =>
      cases isEntries : inner.entries with
      | none | some entries => simp [isEntries]
  · cases malloc 0 with
    | false => simp
    | true =>
      cases malloc 1 with
      | false => simp
      | true => simp [storeEntry]

/--
The first slot below `nb` that stores the VNI, if there is one, has a table of
known MACs in use that takes the MAC.  If there is none, no linked port carries
the VNI.
-/
def AddFinds (brick : Brick ι) (state : VtepState version) (vni : BitVec 32) (mac : BitVec 48)
    (malloc : Malloc) : Prop :=
  match portOfVni brick state vni with
  | none => ∀ i, ¬ CarriesVni brick state vni i
  | some i =>
    ∃ table, (state.ports i).knownMac = .live table ∧ TakesEntry malloc table (mac.setWidth 64)

variable {brick : Brick ι} {vni : BitVec 32} {i : Nat}

theorem portOfVni_vni {state : VtepState version} (found : portOfVni brick state vni = some i) :
    (state.ports i).vni = vniField vni := by
  unfold portOfVni at found
  have isVni := List.find?_some found
  exact of_decide_eq_true isVni

variable {table : MacTable Unit}

/-- A port with known MACs is attached. -/
theorem PortShape.attached_of_live {output : Side} {port : VtepPort version}
    (shape : PortShape brick output i port) (isLive : port.knownMac = .live table) :
    port.Attached := by
  by_contra bare
  rw [(shape.bare bare).1] at isLive
  cases isLive

variable {world : VtepWorld ι version}

/-- The body of `pg_vtep_add_mac` once a port was found. -/
theorem pgVtepAddMac_of_found (found : portOfVni brick world.state vni = some i) (mac : BitVec 48) :
    pgVtepAddMac brick vni mac world = (tryCatch (do
          doAddMac i mac
          pure 0)
        (fun stopped => match stopped with
          | .raised => do
              dropTable macToDst isKnownMacDead i
              setError (noMemory "not enouth space to add mac")
              pure (-1)
          | other => throw other) : VtepM ι version Int) world := by
  show (match portOfVni brick world.state vni with
    | none => _
    | some i => _ : VtepM ι version Int) world = _
  generalize portOfVni brick world.state vni = result at found ⊢
  subst found
  rfl

variable {mac : BitVec 48}

/-- A MAC that the table of the found port takes is added. -/
theorem pgVtepAddMac_of_takes {after : MacTable Unit}
    (found : portOfVni brick world.state vni = some i)
    (isLive : (world.state.ports i).knownMac = .live table)
    (stored : (macTableSet world.malloc table (mac.setWidth 64) ()).1 = .stored after) :
    ∃ malloc, pgVtepAddMac brick vni mac world =
        .ok 0 (world.withTable malloc knownMac i (.live after)) := by
  rcases isSet : macTableSet world.malloc table (mac.setWidth 64) () with
    ⟨outcome, malloc⟩
  rw [isSet] at stored
  have isSlot : knownMac.slot (world.state.ports i) = .live table := isLive
  have adds : doAddMac i mac world = .ok () (world.withTable malloc knownMac i (.live after)) := by
    unfold doAddMac
    rw [setInTable_run, isSlot]
    dsimp only
    rw [isSet, show outcome = .stored after from stored]
  refine ⟨malloc, ?_⟩
  rw [pgVtepAddMac_of_found found]
  show EStateM.tryCatch (EStateM.bind (doAddMac i mac) _) _ world = _
  unfold EStateM.tryCatch EStateM.bind
  rw [adds]
  rfl

/-- Otherwise `pg_vtep_add_mac` may return -1, if the table is in use. -/
theorem pgVtepAddMac_of_refused (found : portOfVni brick world.state vni = some i)
    (refused : ∀ table, (world.state.ports i).knownMac = .live table → ¬ TakesEntry world.malloc
        table (mac.setWidth 64)) {ret : Int} {left : VtepWorld ι version}
    (ran : pgVtepAddMac brick vni mac world = .ok ret left) :
    ret = -1 ∧ ∃ table, (world.state.ports i).knownMac = .live table := by
  have adds : Spec (fun state => state = world) (doAddMac i mac : VtepM ι version Unit)
        (fun _ _ => False) (fun reason _ =>
          reason = .raised → ∃ table, (world.state.ports i).knownMac = .live table) := by
    intro state isStart
    unfold doAddMac
    rw [isStart, setInTable_run]
    cases isSlot : knownMac.slot (world.state.ports i) with
    | absent | freed => exact fun isRaised => nomatch isRaised
    | live table =>
      have notStored :=
        mt (macTableSet_stored_iff world.malloc table (mac.setWidth 64)
          ()).mp (refused table isSlot)
      dsimp only
      rcases isSet : macTableSet world.malloc table (mac.setWidth 64) () with
        ⟨outcome, malloc⟩
      rw [isSet] at notStored
      cases outcome with
      | stored after => exact notStored ⟨after, rfl⟩
      | raised after => exact fun _ => ⟨table, isSlot⟩
      | fault => exact fun isRaised => nomatch isRaised
  rw [pgVtepAddMac_of_found found] at ran
  cases added : doAddMac i mac world with
  | ok value after => exact absurd (adds.returned rfl added) id
  | error reason after =>
    have inUse := adds.stopped rfl added
    have ran : EStateM.tryCatch (EStateM.bind (doAddMac i mac) _) _ world = .ok ret left := ran
    unfold EStateM.tryCatch EStateM.bind at ran
    rw [added] at ran
    cases reason with
    | raised =>
      refine ⟨?_, inUse rfl⟩
      have drops : Spec (fun _ => True) (do
              dropTable macToDst isKnownMacDead i
              setError (noMemory "not enouth space to add mac")
              pure (-1) : VtepM ι version Int)
            (fun ret _ => ret = -1) (fun _ _ => True) := by
        intro state _
        cases dropped : (dropTable macToDst isKnownMacDead i : VtepM ι version Unit) state with
        | ok value last =>
          rw [bind_of_ok dropped]
          rfl
        | error reason last =>
          rw [bind_of_error dropped]
          trivial
      exact drops.returned trivial ran
    | freedTable | aborted abort => cases ran

/-- `pg_vtep_add_mac` works on the right port exactly if it finds it. -/
theorem addsByVni_iff {host : VtepHost version}
    (shapes : ∀ i, PortShape brick host.state.output i (host.state.ports i)) (vni : BitVec 32)
    (mac : BitVec 48) (around : Surroundings) :
    AddsByVni brick host vni mac around ↔ AddFinds brick host.state vni mac around.malloc := by
  let world : VtepWorld ι version := host.world around (fun _ => Mbuf.zero)
  unfold AddFinds
  cases found : portOfVni brick host.state vni with
  | none =>
    have fails : ∃ failure, pgVtepAddMac brick vni mac world =
            .ok (-1) { world with errp := some failure } := by
      show ∃ failure, (match portOfVni brick host.state vni with
        | none => _
        | some i => _ : VtepM ι version Int) world = _
      rw [found]
      exact ⟨_, rfl⟩
    obtain ⟨failure, fails⟩ := fails
    constructor
    · rintro ⟨ret, left, ran, zero_iff, _⟩ i carries
      rw [show host.world around (fun _ => Mbuf.zero) = world from rfl, fails] at ran
      have isZero := zero_iff.mpr ⟨i, carries⟩
      cases ran
      exact absurd isZero (by decide)
    · intro none
      refine ⟨-1, _, fails, iff_of_false (by decide) ?_, fun isZero => absurd isZero (by decide)⟩
      rintro ⟨i, carries⟩
      exact none i carries
  | some i =>
    have isVni : (host.state.ports i).vni = vniField vni := portOfVni_vni found
    have foundHere : portOfVni brick world.state vni = some i := found
    have shape := shapes i
    constructor
    · rintro ⟨ret, left, ran, zero_iff, _⟩
      by_contra refused
      obtain ⟨isMinus, table, isLive⟩ :=
        pgVtepAddMac_of_refused foundHere
          (fun table isLive takes => refused ⟨table, isLive, takes⟩) ran
      have attached := shape.attached_of_live isLive
      have isZero := zero_iff.mpr ⟨i, shape.linked attached, attached, isVni⟩
      exact absurd (isMinus.symm.trans isZero) (by decide)
    · rintro ⟨table, isLive, takes⟩
      obtain ⟨after, stored⟩ :=
        (macTableSet_stored_iff around.malloc table (mac.setWidth 64) ()).mpr takes
      obtain ⟨malloc, adds⟩ := pgVtepAddMac_of_takes foundHere isLive stored
      have attached := shape.attached_of_live isLive
      have carries : CarriesVni brick host.state vni i := ⟨shape.linked attached, attached, isVni⟩
      refine ⟨0, _, adds, iff_of_true rfl ⟨i, carries⟩, fun _ => ⟨i, carries, after, rfl, ?_⟩⟩
      have contents := (macTableSet_eq_stored (shape.knownMac table isLive) stored).2
      funext key
      rw [contents key, isLive, update_apply]
      rfl

end Adding

section Unsetting

variable {brick : Brick ι} {world : VtepWorld ι version}

/-- What the only round of `pg_vtep_unset_mac` that matters does. -/
theorem pgVtepUnsetMac_run (linked : (brick.sides (pgFlipSide world.state.output)).nb ≠ 0)
    (vni : BitVec 32) (mac : BitVec 48) :
    pgVtepUnsetMac brick vni mac world =
      if (brick.sides (pgFlipSide world.state.output)).max ≤ vni.toNat then
        .error (.aborted .fault) world
      else if (world.state.ports vni.toNat).vni = vni then
        unsetInTable vni.toNat (mac.setWidth 64) world
      else
        .ok (-1) world := by
  obtain ⟨count, isCount⟩ := Nat.exists_eq_succ_of_ne_zero linked
  -- a round that does not return changes nothing, so the next does neither
  have all_rounds (rounds : List Nat) (round : Nat) :
      unsetRounds brick vni mac (round :: rounds) world =
        if (brick.sides (pgFlipSide world.state.output)).max ≤ vni.toNat then
          .error (.aborted .fault) world
        else if (world.state.ports vni.toNat).vni = vni then
          unsetInTable vni.toNat (mac.setWidth 64) world
        else
          .ok (-1) world := by
    induction rounds generalizing round with
    | nil =>
      show (if _ then _ else _ : VtepM ι version Int) world = _
      split_ifs <;> rfl
    | cons next rest ih =>
      show (if _ then _ else _ : VtepM ι version Int) world = _
      split_ifs with outside isVni
      · rfl
      · rfl
      · exact (ih next).trans (by rw [if_neg outside, if_neg isVni])
  show unsetRounds brick vni mac
    (List.range (brick.sides (pgFlipSide world.state.output)).nb) world = _
  rw [isCount, range_succ_eq_map]
  exact all_rounds _ 0

/--
No port is linked, or the VNI is the number of a port.  The entry that this
port has for the MAC, if it also stores the VNI as it is given, is that of a
port that carries the VNI, and if there is no such entry then no linked port
that carries the VNI has one.
-/
def UnsetFinds (brick : Brick ι) (state : VtepState version) (vni : BitVec 32) (mac : BitVec 48)
    : Prop :=
  (brick.sides (pgFlipSide state.output)).nb = 0 ∨
    vni.toNat < (brick.sides (pgFlipSide state.output)).max ∧
    ((state.ports vni.toNat).vni = vni → (state.ports vni.toNat).macToDst ≠ .freed) ∧
    if (state.ports vni.toNat).vni = vni ∧ HasEntry state vni.toNat mac then
      CarriesVni brick state vni vni.toNat
    else
      ∀ i, CarriesVni brick state vni i → ¬ HasEntry state i mac

/-- Unsetting an entry of a table that was not freed. -/
theorem unsetInTable_run {output : Side} {i : Nat}
    (shape : PortShape brick output i (world.state.ports i))
    (notFreed : (world.state.ports i).macToDst ≠ .freed) (mac : BitVec 48) :
    ∃ left, unsetInTable i (mac.setWidth 64) world =
          .ok (if HasEntry world.state i mac then 0 else -1) left ∧
        (HasEntry world.state i mac → OnlyTable macToDst world.state left.state i
            (update (world.state.ports i).macToDst.contents (macKey (mac.setWidth 64)) none)) := by
  cases isSlot : (world.state.ports i).macToDst with
  | freed => exact absurd isSlot notFreed
  | absent =>
    have nothing : ¬ HasEntry world.state i mac := by simp [HasEntry, isSlot, TableSlot.contents]
    refine ⟨world, ?_, fun has => absurd has nothing⟩
    rw [if_neg nothing]
    refine (bind_get _ _).trans ?_
    rw [isSlot]
    rfl
  | live table =>
    obtain ⟨_, contents, isRet⟩ :=
      macTableUnset_spec (shape.macToDst table isSlot) (mac.setWidth 64)
    have has_iff : HasEntry world.state i mac ↔
          (table.contents (macKey (mac.setWidth 64))).isSome = true := by
      unfold HasEntry
      rw [isSlot]
      rfl
    refine ⟨world.withPort i { world.state.ports i with
        macToDst := .live (pgMacTableElemUnset table (mac.setWidth 64)).2 },
      ?_, fun _ => ⟨_, rfl, ?_⟩⟩
    · simp only [has_iff]
      rw [← isRet]
      refine (bind_get _ _).trans ?_
      rw [isSlot]
      rfl
    · funext key
      rw [contents key, update_apply]
      rfl

/-- A multipole with a link has counted it. -/
theorem WellCounted.nb_ne_zero {side : Side} {index : Nat} (counted : WellCounted brick)
    (multipole : brick.type = .multipole) (linked : (brick.linkAt side index).isSome = true) :
    (brick.sides side).nb ≠ 0 := by
  obtain ⟨edge, isEdge, isLink⟩ := (linkAt_isSome_of_multipole multipole side index).mp linked
  rw [counted.count side]
  unfold linkCount
  have positive : 0 < (brick.sides side).edges.countP (fun edge => edge.link.isSome) :=
    countP_pos_iff.mpr ⟨edge, mem_of_getElem? isEdge, isLink⟩
  exact Nat.ne_of_gt positive

variable {host : VtepHost version}

variable {vni : BitVec 32} {mac : BitVec 48} {around : Surroundings}

/-- A call that returns -1 is right if there was nothing to remove. -/
theorem unsetsByVni_of_minus {left : VtepWorld ι version}
    (ran : pgVtepUnsetMac brick vni mac (host.world around (fun _ => Mbuf.zero)) = .ok (-1) left) :
    UnsetsByVni brick host vni mac around ↔
      ∀ i, CarriesVni brick host.state vni i → ¬ HasEntry host.state i mac := by
  constructor
  · rintro ⟨ret, last, isRun, zero_iff, _⟩ i carries has
    rw [ran] at isRun
    have isZero := zero_iff.mpr ⟨i, carries, has⟩
    cases isRun
    exact absurd isZero (by decide)
  · intro nothing
    refine ⟨-1, left, ran, iff_of_false (by decide) ?_, fun isZero => absurd isZero (by decide)⟩
    rintro ⟨i, carries, has⟩
    exact nothing i carries has

/-- A call that removed an entry is right if it removed it from the port. -/
theorem unsetsByVni_of_zero {left : VtepWorld ι version} {k : Nat}
    (ran : pgVtepUnsetMac brick vni mac (host.world around (fun _ => Mbuf.zero)) = .ok 0 left)
    (has : HasEntry host.state k mac)
    (removed : OnlyTable macToDst host.state left.state k (update (host.state.ports
        k).macToDst.contents (macKey (mac.setWidth 64)) none)) :
    UnsetsByVni brick host vni mac around ↔ CarriesVni brick host.state vni k := by
  constructor
  · rintro ⟨ret, last, isRun, _, only⟩
    rw [ran] at isRun
    cases isRun
    obtain ⟨i, carries, _, table, isLeft, _⟩ := only rfl
    obtain ⟨emptied, isEmptied, contents⟩ := removed
    by_cases here : k = i
    · rw [here]
      exact carries
    · -- the entry would be gone from a port that was not written
      have untouched : left.state.ports k = host.state.ports k := by
        rw [isLeft]
        exact update_of_ne here _ _
      have gone : ¬ HasEntry left.state k mac := by
        unfold HasEntry
        rw [isEmptied]
        simp only [update_self]
        show ¬ (emptied.contents (macKey (mac.setWidth 64))).isSome = true
        rw [contents, update_self]
        exact Bool.false_ne_true
      refine absurd has ?_
      unfold HasEntry at gone ⊢
      rwa [untouched] at gone
  · intro carries
    exact ⟨0, left, ran, iff_of_true rfl ⟨k, carries, has⟩, fun _ => ⟨k, carries, has, removed⟩⟩

/-- `pg_vtep_unset_mac` works on the right port exactly if it hits it. -/
theorem unsetsByVni_iff (counted : WellCounted brick) (multipole : brick.type = .multipole)
    (shapes : ∀ i, PortShape brick host.state.output i (host.state.ports i)) (vni : BitVec 32)
    (mac : BitVec 48) (around : Surroundings) :
    UnsetsByVni brick host vni mac around ↔ UnsetFinds brick host.state vni mac := by
  let world : VtepWorld ι version := host.world around (fun _ => Mbuf.zero)
  show _ ↔ UnsetFinds brick world.state vni mac
  unfold UnsetFinds
  by_cases unlinked : (brick.sides (pgFlipSide world.state.output)).nb = 0
  · have ran : pgVtepUnsetMac brick vni mac world = .ok (-1) world := by
      show unsetRounds brick vni mac
        (List.range (brick.sides (pgFlipSide world.state.output)).nb) world = _
      rw [unlinked]
      rfl
    rw [unsetsByVni_of_minus ran]
    refine iff_of_true (fun i carries => ?_) (.inl unlinked)
    exact absurd unlinked (counted.nb_ne_zero multipole carries.linked)
  rw [or_iff_right unlinked]
  have run := pgVtepUnsetMac_run unlinked vni mac
  by_cases beyond : (brick.sides (pgFlipSide world.state.output)).max ≤ vni.toNat
  · rw [if_pos beyond] at run
    refine iff_of_false ?_ (fun finds => absurd finds.1 (not_lt.mpr beyond))
    rintro ⟨ret, left, ran, _⟩
    cases run.symm.trans ran
  rw [if_neg beyond] at run
  rw [and_iff_right (not_le.mp beyond)]
  by_cases stores : (world.state.ports vni.toNat).vni = vni
  · rw [if_pos stores] at run
    by_cases freed : (world.state.ports vni.toNat).macToDst = .freed
    · have stops : unsetInTable vni.toNat (mac.setWidth 64) world = .error .freedTable world := by
        refine (bind_get _ _).trans ?_
        rw [freed]
        rfl
      rw [stops] at run
      refine iff_of_false ?_ (fun finds => finds.1 stores freed)
      rintro ⟨ret, left, ran, _⟩
      cases run.symm.trans ran
    · rw [and_iff_right (fun _ => freed)]
      obtain ⟨left, unsets, removed⟩ := unsetInTable_run (shapes vni.toNat) freed mac
      rw [unsets] at run
      by_cases has : HasEntry world.state vni.toNat mac
      · rw [if_pos ⟨stores, has⟩]
        rw [if_pos has] at run
        exact unsetsByVni_of_zero run has (removed has)
      · rw [if_neg (fun both => has both.2)]
        rw [if_neg has] at run
        exact unsetsByVni_of_minus run
  · rw [if_neg stores] at run
    rw [and_iff_right (fun isVni => absurd isVni stores), if_neg (fun both => stores both.1)]
    exact unsetsByVni_of_minus run

end Unsetting

/--
In every run, `pg_vtep_add_mac` works on a port that carries the VNI exactly if
it finds one, and `pg_vtep_unset_mac` exactly if it hits one.  The slots that
the first looks at are in the array of ports.
-/
theorem macs_by_vni_iff [DecidableEq ι] [Fintype ι] {others : BrickOps ι τ}
    {graph : Graph ι (Node (VtepHost version) τ)}
    (reachable : (managedSystem others).Reachable graph) {target : ι} {host : VtepHost version}
    (isVtep : graph.priv target = .own host) (running : host.stopped = none) (vni : BitVec 32)
    (mac : BitVec 48) (around : Surroundings) :
    ((graph.brick target).sides (pgFlipSide host.state.output)).nb ≤
      ((graph.brick target).sides (pgFlipSide host.state.output)).max ∧
    (AddsByVni (graph.brick target) host vni mac around ↔
      AddFinds (graph.brick target) host.state vni mac around.malloc) ∧
    (UnsetsByVni (graph.brick target) host vni mac around ↔
      UnsetFinds (graph.brick target) host.state vni mac) := by
  have holds := managedGraph_shape reachable
  have counted := holds.links.counted target
  have shape := holds.nodes target host isVtep
  refine ⟨counted.room _, ?_, ?_⟩
  · exact addsByVni_iff (shape.ports running) vni mac around
  · exact unsetsByVni_iff counted shape.multipole (shape.ports running) vni mac around

/-- Is a MAC taken by the known ones of port 0? -/
def byVniTaken (host : VtepHost .v4) (mac : BitVec 48) : Bool :=
  match (host.state.ports 0).knownMac with
  | .live table =>
    pgMacTableIsSet table.mask (pgMacTablePart1 (mac.setWidth 64)) &&
      ((table.subs (pgMacTablePart1 (mac.setWidth 64))).bind SubTable.entries).isSome
  | _ => false

/-- The hub is linked to both sides of the vtep, and no VNI is attached. -/
def vtepHubBoth : Graph Bool (Node (VtepHost .v4) Unit) :=
  vtepHubLinked.after (nodeOps (vtepOps Bool .v4) (quietOps Bool)) (.link (some true) (some false))

/-- VNI 0, which is the number of its port, is attached to the port of the hub. -/
def attachVniZero : VtepOp Bool .v4 :=
  .addVni (some true) 0#32 exampleGroup

/-- A packet for VNI 0 whose inner source is `00:00:00:02:00:00`. -/
def receiveVniZero : VtepOp Bool .v4 :=
  .burst .west 0 (fun _ => { vniOneVxlan with
      buf := fun place =>
        if place = 48 ∨ place = 56 then 0#8
        else if place = 59 then 2#8
        else vniOneVxlan.buf place })
    1#64

/-- The vtep after VNI 0 was attached. -/
def vniZeroVtep : VtepHost .v4 :=
  (calmHost (vtepInit .west 0#32 0#48 0#16 0#32)).left (attachVniZero.run (vtepHubBoth.brick false)
    (calmHost (vtepInit .west 0#32 0#48 0#16 0#32)) calmSurroundings)

/-- The program after VNI 0 was attached. -/
def vniZeroAttached : Graph Bool (Node (VtepHost .v4) Unit) :=
  { vtepHubBoth with priv := update vtepHubBoth.priv false (.own vniZeroVtep) }

/-- The vtep once it has learnt where `00:00:00:02:00:00` is. -/
def vniZeroLearnt : VtepHost .v4 :=
  vniZeroVtep.left (receiveVniZero.run (vniZeroAttached.brick false) vniZeroVtep calmSurroundings)

/-- The program once the vtep has learnt the entry. -/
def vniZeroHub : Graph Bool (Node (VtepHost .v4) Unit) :=
  { vniZeroAttached with priv := update vniZeroAttached.priv false (.own vniZeroLearnt) }

theorem vniZeroHub_steps :
    (managedSystem (quietOps Bool)).step vtepHubLinked
        (.event (.call (.link (some true) (some false)))) vtepHubBoth ∧
      (managedSystem (quietOps Bool)).step vtepHubBoth
        (.event (.operate false attachVniZero calmSurroundings)) vniZeroAttached ∧
      (managedSystem (quietOps Bool)).step vniZeroAttached
        (.event (.operate false receiveVniZero calmSurroundings)) vniZeroHub := by
  refine ⟨⟨none, rfl⟩, ⟨_, rfl, rfl, trivial, rfl⟩, ⟨vniZeroVtep, ?_, ?_, ?_, rfl⟩⟩
  · show update vtepHubBoth.priv false (.own vniZeroVtep) false = _
    rw [update_self]
  · decide +kernel
  · show ((vniZeroAttached.brick false).linkAt .west 0).isSome = true
    decide +kernel

/--
On the port of VNI 0, `pg_vtep_add_mac` adds `ff:ff:ff:00:00:01` to the known
MACs, and `pg_vtep_unset_mac` removes the entry that was learnt.
-/
theorem macs_by_vni_iff_learnt :
    HasEntry vniZeroLearnt.state 0 0x2000000#48 ∧
      AddsByVni (vniZeroHub.brick false) vniZeroLearnt 0#32 0x010000FFFFFF#48 calmSurroundings ∧
      UnsetsByVni (vniZeroHub.brick false) vniZeroLearnt 0#32 0x2000000#48 calmSurroundings := by
  have has : HasEntry vniZeroLearnt.state 0 0x2000000#48 := by decide +kernel
  have isVtep : vniZeroHub.priv false = .own vniZeroLearnt := by
    show update vniZeroAttached.priv false (.own vniZeroLearnt) false = _
    rw [update_self]
  obtain ⟨links, attaches, learns⟩ := vniZeroHub_steps
  have linked := managed_of_vtep vtepHubLinked_reachable.of_guarded
  have reachable : (managedSystem (quietOps Bool)).Reachable vniZeroHub :=
    .step _ (.step _ (.step _ linked links) attaches) learns
  have running : vniZeroLearnt.stopped = none := by decide +kernel
  have works (mac : BitVec 48) :=
    macs_by_vni_iff reachable isVtep running 0#32 mac calmSurroundings
  refine ⟨has, (works _).2.1.mpr ?_, (works _).2.2.mpr (.inr ⟨by decide +kernel, ?_, ?_⟩)⟩
  · have found : portOfVni (vniZeroHub.brick false) vniZeroLearnt.state 0#32 = some 0 := by
      decide +kernel
    have taken : byVniTaken vniZeroLearnt 0x010000FFFFFF#48 = true := by decide +kernel
    unfold byVniTaken at taken
    unfold AddFinds
    rw [found]
    dsimp only
    cases isSlot : (vniZeroLearnt.state.ports 0).knownMac with
    | absent | freed =>
      rw [isSlot] at taken
      cases taken
    | live table =>
      rw [isSlot] at taken
      obtain ⟨isSet, hasEntries⟩ := Bool.and_eq_true_iff.mp taken
      refine ⟨table, rfl, ?_⟩
      unfold TakesEntry
      rw [if_pos isSet]
      exact hasEntries
  · intro _ freed
    rw [show (0#32).toNat = 0 from rfl] at freed
    unfold HasEntry at has
    rw [freed] at has
    cases has
  · rw [if_pos ⟨by decide +kernel, has⟩]
    exact ⟨by decide +kernel, by decide +kernel, by decide +kernel⟩

/--
On a vtep with a linked port without a VNI, `pg_vtep_add_mac` takes the port
for that of VNI 0 and writes to a table that is not there, and
`pg_vtep_unset_mac` reads port 1000 of two ports.
-/
theorem mac_calls_leave_ports :
    (managedSystem (quietOps Bool)).Reachable vtepHubLinked ∧ vtepHubLinked.priv false =
        .own (calmHost (vtepInit .west 0#32 0#48 0#16 0#32)) ∧
      ((vtepHubLinked.brick false).sides .east).max = 2 ∧
      ¬ AddsByVni (vtepHubLinked.brick false)
        (calmHost (vtepInit .west 0#32 0#48 0#16 0#32)) 0#32 1#48 calmSurroundings ∧
      ¬ UnsetsByVni (vtepHubLinked.brick false)
        (calmHost (vtepInit .west 0#32 0#48 0#16 0#32)) 1000#32 1#48
        calmSurroundings := by
  let world : VtepWorld Bool .v4 :=
    (calmHost (vtepInit .west 0#32 0#48 0#16 0#32)).world calmSurroundings (fun _ => Mbuf.zero)
  have adds : attachAnswer (pgVtepAddMac (vtepHubLinked.brick false) 0#32 1#48 world) =
        none := by
    decide +kernel
  have unsets : attachAnswer (pgVtepUnsetMac (vtepHubLinked.brick false) 1000#32 1#48 world) =
        none := by
    decide +kernel
  refine ⟨managed_of_vtep vtepHubLinked_reachable.of_guarded, rfl, rfl, ?_, ?_⟩
  · rintro ⟨ret, left, ran, _⟩
    have ran : pgVtepAddMac (vtepHubLinked.brick false) 0#32 1#48 world = .ok ret left := ran
    rw [ran] at adds
    cases adds
  · rintro ⟨ret, left, ran, _⟩
    have ran : pgVtepUnsetMac (vtepHubLinked.brick false) 1000#32 1#48 world = .ok ret left := ran
    rw [ran] at unsets
    cases unsets

end PacketGraph
