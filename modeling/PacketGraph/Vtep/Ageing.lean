import PacketGraph.Vtep.ByVni

namespace PacketGraph

open BitMap BitScan BitVec Effects Function Option TransitionSystem

/-!
# Ageing of learned addresses

A vtep counts the bursts it handles, and stamps an entry of `mac_to_dst` with
the count when it learns the entry and when it sends to it.  What
`pg_vtep_cleanup_mac` takes for the age of an entry is the wrapping difference
of the two.

A run is followed here together with a count that does not wrap and with the
burst in which each entry was last learnt or sent to, against which the ages
are judged.  Learning and sending are the events that `noteUse` records, and
not what the table shows of them.
-/

variable {ι τ : Type} {version : IpVersion}

section History

/-- A graph with the bursts of its vteps, and those that last used each entry. -/
structure Aged (ι τ : Type) (version : IpVersion) where
  graph : Graph ι (Node (VtepHost version) τ)
  bursts : ι → Nat
  lastUse : ι → Nat → MacKey → Nat

/-- How many bursts ago an entry was last learnt or sent to. -/
def Aged.age (aged : Aged ι τ version) (target : ι) (i : Nat) (key : MacKey) : Nat :=
  aged.bursts target - aged.lastUse target i key

variable {graph : Graph ι (Node (VtepHost version) τ)}

variable [DecidableEq ι]

/-- The bursts that a step hands to a vtep. -/
def ManagedEvent.bursts (target : ι) : ManagedEvent ι version → Nat
  | .event (.operate here (.burst _ _ _ _) _) => if here = target then 1 else 0
  | _ => 0

/-- What a step learns and sends to at a vtep. -/
def ManagedEvent.used (graph : Graph ι (Node (VtepHost version) τ)) (target : ι) :
    ManagedEvent ι version → List (Nat × Mac)
  | .event (.operate here op around) =>
    match graph.priv here with
    | .own host =>
      if here = target then (finalState (op.run (graph.brick here) host around)).used else []
    | .other _ => []
  | _ => []

/-- The burst in which an entry was last learnt or sent to, after one more step. -/
def Aged.lastUseAfter (before : Aged ι τ version) (event : ManagedEvent ι version) (target : ι)
    (i : Nat) (key : MacKey) : Nat :=
  if key ∈ usedAt (event.used before.graph target) i then
    before.bursts target + event.bursts target
  else
    before.lastUse target i key

/-- The runs of a graph with vteps, followed with their ages. -/
def agedSystem (others : BrickOps ι τ) : System (Aged ι τ version) (ManagedEvent ι version) where
  initial := fun aged => (managedSystem others).initial aged.graph ∧ aged.bursts = fun _ => 0
  step := fun before event after =>
    (managedSystem others).step before.graph event after.graph ∧
      after.bursts = (fun target => before.bursts target + event.bursts target) ∧
      after.lastUse = before.lastUseAfter event

variable {others : BrickOps ι τ}

/-- A run with ages is a run. -/
theorem managed_of_aged {aged : Aged ι τ version} (reachable : (agedSystem others).Reachable aged) :
    (managedSystem others).Reachable aged.graph := by
  induction reachable with
  | initial made => exact .initial made.1
  | step event _ stepped ih => exact .step event ih stepped.1

/-- A step of a run is one with ages. -/
theorem aged_step {aged : Aged ι τ version} {event : ManagedEvent ι version}
    {after : Graph ι (Node (VtepHost version) τ)} (reachable : (agedSystem others).Reachable aged)
    (isGraph : aged.graph = graph) (stepped : (managedSystem others).step graph event after) :
    ∃ next : Aged ι τ version,
      (agedSystem others).Reachable next ∧
      next.graph = after ∧
      ∀ target, next.bursts target = aged.bursts target + event.bursts target := by
  subst isGraph
  exact ⟨⟨after, _, aged.lastUseAfter event⟩, .step event reachable ⟨stepped, rfl, rfl⟩, rfl,
    fun _ => rfl⟩

/-- Every run has its ages. -/
theorem exists_aged (reachable : (managedSystem others).Reachable graph) :
    ∃ aged : Aged ι τ version, (agedSystem others).Reachable aged ∧ aged.graph = graph := by
  induction reachable with
  | @initial graph made => exact ⟨⟨graph, fun _ => 0, fun _ _ _ => 0⟩, .initial ⟨made, rfl⟩, rfl⟩
  | step event _ stepped ih =>
    obtain ⟨aged, agedReachable, wasGraph⟩ := ih
    obtain ⟨next, nextReachable, isGraph, _⟩ := aged_step agedReachable wasGraph stepped
    exact ⟨next, nextReachable, isGraph⟩

end History

section Stamps

/-- The tables of destinations of a vtep are well formed. -/
def VtepState.MacsFormed (state : VtepState version) : Prop :=
  ∀ i table, (state.ports i).macToDst = .live table → table.WellFormed

/--
Entries that were learnt or sent to are stamped with the tick, and all others
were kept or dropped.
-/
structure KeptOrStamped (tick : BitVec 64) (used : List (Nat × Mac))
    (before after : VtepState version) : Prop where
  isTick : after.vtepTick = tick
  formed : after.MacsFormed
  entries : ∀ i key entry, (after.ports i).macToDst.contents key = some entry →
    if key ∈ usedAt used i then
      entry.lifetime = tick
    else
      (before.ports i).macToDst.contents key = some entry

variable {tick : BitVec 64}

/-- What two steps keep or drop that use no entry. -/
theorem KeptOrStamped.trans {first second third : VtepState version}
    (earlier : KeptOrStamped tick [] first second) (later : KeptOrStamped tick [] second third) :
    KeptOrStamped tick [] first third :=
  ⟨later.isTick, later.formed, fun i key entry isThere =>
    earlier.entries i key entry (later.entries i key entry isThere)⟩

/-- What elementary changes do to the table of destinations. -/
theorem PortChanges.macs {port after : VtepPort version} {keys : List MacKey}
    (formed : ∀ table, port.macToDst = .live table → table.WellFormed)
    (changes : PortChanges tick port keys after) :
    (∀ table, after.macToDst = .live table → table.WellFormed) ∧
      ∀ key entry, after.macToDst.contents key = some entry →
        if key ∈ keys then
          entry.lifetime = tick
        else
          port.macToDst.contents key = some entry := by
  induction changes with
  | refl => exact ⟨formed, fun _ _ isThere => isThere⟩
  | @tail keys _ _ changed _ change ih =>
    obtain ⟨formedBefore, entriesBefore⟩ := ih
    obtain ⟨formedAfter, entriesAfter⟩ := change.macs formedBefore
    refine ⟨formedAfter, fun key entry isThere => ?_⟩
    have wasThere := entriesAfter key entry isThere
    by_cases isChanged : changed = some key
    · rw [if_pos isChanged] at wasThere
      rwa [if_pos (by simp [isChanged])]
    · rw [if_neg isChanged] at wasThere
      simp only [List.mem_append, mem_toList, isChanged, false_or]
      exact entriesBefore key entry wasThere

variable {world : VtepWorld ι version}

/-- A world that is upheld has stamped what was used in it. -/
theorem Upheld.keptOrStamped {inBurst : Bool} {start : VtepState version}
    (upheld : Upheld inBurst start world) (formed : start.MacsFormed) :
    KeptOrStamped start.vtepTick world.used start world.state where
  isTick := upheld.tick
  formed := fun i => ((upheld.ports i).macs (formed i)).1
  entries := fun i => ((upheld.ports i).macs (formed i)).2

/-- Outside of bursts nothing is used, so that entries are kept or dropped. -/
theorem Upheld.kept {start : VtepState version} (upheld : Upheld false start world)
    (formed : start.MacsFormed) : KeptOrStamped start.vtepTick [] start world.state := by
  rw [← upheld.idle rfl]
  exact upheld.keptOrStamped formed

theorem KeptOrStamped.clearPort {before : VtepState version}
    (kept : KeptOrStamped tick [] before world.state) (i : Nat) :
    KeptOrStamped tick [] before (world.withPort i (VtepPort.zero version)).state := by
  have ports (k : Nat) : (world.withPort i (VtepPort.zero version)).state.ports k =
        if k = i then VtepPort.zero version else world.state.ports k := by
    show update world.state.ports i _ k = _
    rw [update_apply]
  refine ⟨kept.isTick, fun k table isLive => ?_, fun k key entry isThere => ?_⟩
  · rw [ports] at isLive
    split at isLive
    · cases isLive
    · exact kept.formed k table isLive
  · rw [ports] at isThere
    split at isThere
    · cases isThere
    · exact kept.entries k key entry isThere

/-- What a notification does to a vtep that still runs after it. -/
def KeptByNotice (host after : VtepHost version) : Prop :=
  after.stopped = none → host.stopped = none ∧
    (host.state.MacsFormed → KeptOrStamped host.state.vtepTick [] host.state after.state)

theorem KeptByNotice.refl (host : VtepHost version) : KeptByNotice host host :=
  fun running => ⟨running, fun formed => ⟨rfl, formed, fun _ _ _ isThere => isThere⟩⟩

theorem KeptByNotice.trans {first second third : VtepHost version}
    (earlier : KeptByNotice first second) (later : KeptByNotice second third) :
    KeptByNotice first third := by
  intro running
  obtain ⟨running, keptLater⟩ := later running
  obtain ⟨running, keptEarlier⟩ := earlier running
  refine ⟨running, fun formed => ?_⟩
  have kept := keptEarlier formed
  have keptLater := keptLater kept.formed
  rw [kept.isTick] at keptLater
  exact kept.trans keptLater

theorem unlinkNotify_kept (brick : Brick ι) (host : VtepHost version) (side : Side) (index : Nat) :
    KeptByNotice host ((vtepOps ι version).unlinkNotify brick host side index).1 := by
  cases running : host.stopped with
  | some reason =>
    simp only [vtepOps, running, isSome_some, if_true]
    intro isNone
    rw [running] at isNone
    cases isNone
  | none =>
    have spec := notified_upheld brick host side index
    simp only [vtepOps, running, isSome_none, Bool.false_eq_true, if_false]
    unfold VtepHost.notified
    cases ran : vtepUnlinkNotify brick side index
        (host.world (host.leaves 0) (fun _ => Mbuf.zero)) with
    | error reason left => rintro ⟨⟩
    | ok value left =>
      refine fun _ => ⟨running, fun formed => ?_⟩
      rcases spec.returned rfl ran with ⟨kept, _⟩ | ⟨middle, kept, rfl⟩
      · exact kept.kept formed
      · exact (kept.kept formed).clearPort index

/-- What notifications do to the node of a brick. -/
def NodeKept (node after : Node (VtepHost version) τ) : Prop :=
  ∀ left, after = .own left → ∃ host, node = .own host ∧ KeptByNotice host left

theorem NodeKept.refl (node : Node (VtepHost version) τ) : NodeKept node node :=
  fun left isOwn => ⟨left, isOwn, .refl left⟩

theorem NodeKept.trans {first second third : Node (VtepHost version) τ}
    (earlier : NodeKept first second) (later : NodeKept second third) : NodeKept first third := by
  intro left isLeft
  obtain ⟨middle, isMiddle, keptLater⟩ := later left isLeft
  obtain ⟨host, isHost, keptEarlier⟩ := earlier middle isMiddle
  exact ⟨host, isHost, keptEarlier.trans keptLater⟩

theorem unlinkNotify_nodeKept {others : BrickOps ι τ}
    (brick : Brick ι) (node : Node (VtepHost version) τ) (side : Side) (index : Nat) :
    NodeKept node ((nodeOps (vtepOps ι version) others).unlinkNotify brick node side index).1 := by
  intro left isLeft
  cases node with
  | other state => cases isLeft
  | own host =>
    rw [← Node.own.inj isLeft]
    exact ⟨host, rfl, unlinkNotify_kept brick host side index⟩

/-- The stamps of a vtep count its bursts. -/
structure Stamped (state : VtepState version) (bursts : Nat) (lastUse : Nat → MacKey → Nat) :
    Prop where
  isTick : state.vtepTick = BitVec.ofNat 64 bursts
  formed : state.MacsFormed
  past : ∀ i key entry, (state.ports i).macToDst.contents key = some entry →
    lastUse i key ≤ bursts ∧ entry.lifetime = BitVec.ofNat 64 (lastUse i key)

/-- A step that keeps, drops or stamps entries keeps the stamps right. -/
theorem Stamped.step {state after : VtepState version} {bursts later : Nat}
    {lastUse nextUse : Nat → MacKey → Nat} {used : List (Nat × Mac)}
    (stamped : Stamped state bursts lastUse)
    (kept : KeptOrStamped (BitVec.ofNat 64 later) used state after) (grows : bursts ≤ later)
    (uses : ∀ i key, nextUse i key = if key ∈ usedAt used i then later else lastUse i key) :
    Stamped after later nextUse := by
  refine ⟨kept.isTick, kept.formed, fun i key entry isThere => ?_⟩
  have entries := kept.entries i key entry isThere
  rw [uses]
  split at entries
  · rename_i isUsed
    rw [if_pos isUsed]
    exact ⟨le_rfl, entries⟩
  · rename_i unused
    rw [if_neg unused]
    obtain ⟨inPast, isStamp⟩ := stamped.past i key entry entries
    exact ⟨inPast.trans grows, isStamp⟩

end Stamps

section Runs

variable [DecidableEq ι]

variable {host : VtepHost version}

/-- An operation keeps, drops or stamps entries with the tick it works at. -/
theorem operation_keptOrStamped {brick : Brick ι} {bursts : Nat} (formed : host.state.MacsFormed)
    (isTick : host.state.vtepTick = BitVec.ofNat 64 bursts) (target : ι) (op : VtepOp ι version)
    (around : Surroundings) :
    KeptOrStamped (BitVec.ofNat 64
        (bursts + ManagedEvent.bursts target (.event (.operate target op around))))
      (finalState (op.run brick host around)).used
      host.state (finalState (op.run brick host around)).state := by
  obtain ⟨start, starts, upheld⟩ := operation_upheld brick host op around
  have same (isStart : start = host.state) : KeptOrStamped (BitVec.ofNat 64 bursts)
        (finalState (op.run brick host around)).used host.state
        (finalState (op.run brick host around)).state := by
    rw [isStart] at upheld
    have kept := upheld.keptOrStamped formed
    rwa [isTick] at kept
  cases op with
  | burst fromSide edgeIndex pkts pktsMask =>
    rw [show start = _ from starts] at upheld
    have kept := upheld.keptOrStamped formed
    have nextTick : host.state.vtepTick + 1#64 = BitVec.ofNat 64 (bursts + 1) := by
      rw [isTick, ofNat_add]
    show KeptOrStamped (BitVec.ofNat 64 (bursts + if target = target then 1 else 0)) _ _ _
    rw [if_pos rfl, ← nextTick]
    exact ⟨kept.isTick, kept.formed, kept.entries⟩
  | addVni neighbor vni multicastIp =>
    rcases starts with isStart | ⟨i, takes, isStart⟩
    · exact same isStart
    · have sameMacs (k : Nat) : (start.ports k).macToDst = (host.state.ports k).macToDst := by
        rw [isStart]
        show (update host.state.ports i _ k).macToDst = _
        by_cases here : k = i
        · subst here
          rw [update_self]
        · rw [update_of_ne here]
      have sameTick : start.vtepTick = BitVec.ofNat 64 bursts := by
        rw [isStart]
        exact isTick
      have startFormed : start.MacsFormed := by
        intro k table isLive
        exact formed k table ((sameMacs k).symm.trans isLive)
      have kept := upheld.keptOrStamped startFormed
      rw [sameTick] at kept
      refine ⟨kept.isTick, kept.formed, fun k key entry isThere => ?_⟩
      rw [← sameMacs]
      exact kept.entries k key entry isThere
  | addMac vni mac | cleanAllMac portId | cleanupMac portId => exact same starts

/-- The stamps of all vteps that run count their bursts. -/
def StampsRight (aged : Aged ι τ version) : Prop :=
  ∀ target host, aged.graph.priv target = .own host → host.stopped = none →
    Stamped host.state (aged.bursts target) (aged.lastUse target)

variable {others : BrickOps ι τ} {before : Aged ι τ version} {event : ManagedEvent ι version}
  {target : ι} {after : Aged ι τ version}

/-- The vtep that a step leaves has its stamps right if it stamps what it uses. -/
theorem StampsRight.keeps (right : StampsRight before)
    (stepped : (agedSystem others).step before event after) {left : VtepHost version}
    (wasVtep : before.graph.priv target = .own host) (running : host.stopped = none)
    (kept : KeptOrStamped (BitVec.ofNat 64 (before.bursts target + event.bursts target))
      (event.used before.graph target) host.state left.state) :
    Stamped left.state (after.bursts target) (after.lastUse target) := by
  obtain ⟨_, isBursts, isLastUse⟩ := stepped
  rw [isBursts, isLastUse]
  exact (right target host wasVtep running).step kept (Nat.le_add_right _ _) (fun _ _ => rfl)

/-- Stamps stay right when one vtep changes, stamping what it uses, and no other is used. -/
theorem StampsRight.replaced (right : StampsRight before)
    (stepped : (agedSystem others).step before event after) {here : ι} {left : VtepHost version}
    (wasVtep : before.graph.priv here = .own host) (running : host.stopped = none)
    (isPriv : after.graph.priv = update before.graph.priv here (.own left))
    (kept : KeptOrStamped (BitVec.ofNat 64 (before.bursts here + event.bursts here))
      (event.used before.graph here) host.state left.state)
    (onlyHere : ∀ target, target ≠ here →
      event.bursts target = 0 ∧ event.used before.graph target = []) :
    StampsRight after := by
  intro target other isVtep isRunning
  rw [isPriv] at isVtep
  by_cases isHere : target = here
  · subst isHere
    rw [update_self, Node.own.injEq] at isVtep
    subst isVtep
    exact right.keeps stepped wasVtep running kept
  · rw [update_of_ne isHere] at isVtep
    obtain ⟨noBurst, noUse⟩ := onlyHere target isHere
    have stamped := right target other isVtep isRunning
    refine right.keeps stepped isVtep isRunning ?_
    rw [noBurst, noUse]
    exact ⟨stamped.isTick, stamped.formed, fun _ _ _ isThere => isThere⟩

/-- A step at another vtep is no burst and uses nothing. -/
theorem operate_of_ne {here : ι} (graph : Graph ι (Node (VtepHost version) τ))
    (isOther : target ≠ here) (op : VtepOp ι version) (around : Surroundings) :
    ManagedEvent.bursts target (.event (.operate here op around)) = 0 ∧
      ManagedEvent.used graph target (.event (.operate here op around)) = [] := by
  constructor
  · cases op with
    | burst => exact if_neg (Ne.symm isOther)
    | addVni | addMac | cleanAllMac | cleanupMac => rfl
  · unfold ManagedEvent.used
    dsimp only
    cases graph.priv here with
    | own host => exact if_neg (Ne.symm isOther)
    | other state => rfl

/-- Every step keeps the stamps right. -/
theorem StampsRight.step [Fintype ι]
    (links : LinkInvariant before.graph.brick) (right : StampsRight before)
    (stepped : (agedSystem others).step before event after) : StampsRight after := by
  have happens := stepped.1
  cases event with
  | event event =>
    cases event with
    | call call =>
      intro target left isVtep running
      obtain ⟨outcome, executed⟩ := happens
      have kept : NodeKept (before.graph.priv target) (after.graph.priv target) :=
        LinkCall.exec_priv NodeKept.refl NodeKept.trans unlinkNotify_nodeKept links executed target
      obtain ⟨host, wasVtep, noticed⟩ := kept left isVtep
      obtain ⟨wasRunning, kept⟩ := noticed running
      have stamped := right target host wasVtep wasRunning
      refine right.keeps stepped wasVtep wasRunning ?_
      have kept := kept stamped.formed
      rwa [stamped.isTick] at kept
    | operate here op around =>
      obtain ⟨host, wasVtep, wasRunning, _, isAfter⟩ := happens
      have stamped := right here host wasVtep wasRunning
      have isUsed : ManagedEvent.used before.graph here (.event (.operate here op around)) =
            (finalState (op.run (before.graph.brick here) host around)).used := by
        unfold ManagedEvent.used
        dsimp only
        rw [wasVtep]
        exact if_pos rfl
      refine right.replaced stepped wasVtep wasRunning (congrArg Graph.priv isAfter) ?_
        (fun target isOther => operate_of_ne before.graph isOther op around)
      rw [VtepHost.state_left, isUsed]
      exact operation_keptOrStamped stamped.formed stamped.isTick here op around
  | unsetMac here vni mac =>
    obtain ⟨host, around, wasVtep, wasRunning, isAfter⟩ := happens
    have stamped := right here host wasVtep wasRunning
    have kept := Upheld.kept (KeepsAlways.finalState
        (pgVtepUnsetMac_upheld (before.graph.brick here) vni mac)
        (upheld_refl (host.world around (fun _ => Mbuf.zero)) rfl)) stamped.formed
    have sameTick : (host.world around (fun _ => Mbuf.zero) :
          VtepWorld ι version).state.vtepTick = BitVec.ofNat 64 (before.bursts here) :=
      stamped.isTick
    rw [sameTick] at kept
    refine right.replaced stepped wasVtep wasRunning (congrArg Graph.priv isAfter) ?_
      (fun target _ => ⟨rfl, rfl⟩)
    rw [VtepHost.state_left]
    exact kept

/-- In every run, the stamps of the vteps count their bursts. -/
theorem stampsRight_of_reachable [Fintype ι] {aged : Aged ι τ version}
    (reachable : (agedSystem others).Reachable aged) : StampsRight aged := by
  induction reachable with
  | @initial aged made =>
    intro target host isVtep _
    obtain ⟨isInitial, noBursts⟩ := made
    have isInitial : (vtepSystem others).initial aged.graph := isInitial
    have allNew : NodeGraph (fun (_ : Brick ι) (host : VtepHost version) =>
            host.state.vtepTick = 0#64 ∧ ∀ i, (host.state.ports i).macToDst = .absent)
          aged.graph :=
      vtepGraph_initial (fun _ _ _ _ _ _ _ _ _ _ => ⟨rfl, fun _ => rfl⟩) isInitial
    have isNew := allNew.nodes target host isVtep
    rw [noBursts]
    refine ⟨isNew.1, fun i table isLive => ?_, fun i key entry isThere => ?_⟩
    · rw [isNew.2] at isLive
      cases isLive
    · rw [isNew.2] at isThere
      cases isThere
  | step event reached stepped right =>
    exact right.step (managedGraph_shape (managed_of_aged reached)).links stepped

end Runs

section Cleanup

/-- A state in which the table of destinations of a port is another one. -/
def VtepState.withMacs (state : VtepState version) (i : Nat)
    (slot : TableSlot (DestAddresses version)) : VtepState version :=
  { state with ports := update state.ports i { state.ports i with macToDst := slot } }

/--
`pg_vtep_cleanup_mac` returns.  It changes nothing if the number is not that
of a port, and drops exactly the entries of the port otherwise that were last
learnt or sent to more than `max_lifetime` bursts ago.
-/
def CleansExactly (brick : Brick ι) (host : VtepHost version) (age : Nat → MacKey → Nat)
    (portId : Int) (around : Surroundings) : Prop :=
  ∃ left,
    pgVtepCleanupMac brick portId
      (host.world around (fun _ => Mbuf.zero) : VtepWorld ι version) = .ok () left ∧
    (portId < 0 ∨ ((brick.sides (pgFlipSide host.state.output)).nb : Int) ≤ portId →
      left.state = host.state) ∧
    ∀ i : Nat, (i : Int) = portId →
      i < (brick.sides (pgFlipSide host.state.output)).nb →
      ∃ slot,
        left.state = host.state.withMacs i slot ∧
        slot ≠ .freed ∧
        ∀ key, slot.contents key =
          if host.state.maxLifetime.toNat < age i key then
            none
          else
            (host.state.ports i).macToDst.contents key

/--
What `pg_vtep_cleanup_mac` needs: a linked port, and for the port it is told a
table in use whose old entries are none that the iterator jumps over or whose
wrapped age is small again.  A negative number is only harmless if it is a
multiple of the number of ports and port 0 has no old entry to drop.
-/
structure AgesRight (brick : Brick ι) (state : VtepState version) (age : Nat → MacKey → Nat)
    (portId : Int) : Prop where
  linked : 0 < (brick.sides (pgFlipSide state.output)).nb
  inside : ∀ i : Nat, (i : Int) = portId →
    i < (brick.sides (pgFlipSide state.output)).nb →
    (state.ports i).macToDst ≠ .freed ∧
    ∀ table key, (state.ports i).macToDst = .live table →
      (table.contents key).isSome = true →
      state.maxLifetime.toNat < age i key →
      ¬ Skipped table key ∧ state.maxLifetime.toNat < age i key % 2 ^ 64
  negative : portId < 0 →
    portId.tmod (brick.sides (pgFlipSide state.output)).nb = 0 ∧
    (state.ports 0).macToDst ≠ .freed ∧
    ∀ table key, (state.ports 0).macToDst = .live table →
      (table.contents key).isSome = true →
      state.maxLifetime.toNat < age 0 key % 2 ^ 64 →
      Skipped table key

/-- The age of an entry, as the code computes it. -/
theorem agedOut_stamp {bursts lastUse : Nat} {entry : DestAddresses version}
    (inPast : lastUse ≤ bursts) (isStamp : entry.lifetime = BitVec.ofNat 64 lastUse)
    (maxLife : BitVec 64) (mac : Mac) :
    agedOut (BitVec.ofNat 64 bursts) maxLife mac (some entry) =
      decide (maxLife.toNat < (bursts - lastUse) % 2 ^ 64) := by
  have wraps : (BitVec.ofNat 64 bursts - BitVec.ofNat 64 lastUse).toNat =
        (bursts - lastUse) % 2 ^ 64 := by
    rw [toNat_sub, toNat_ofNat, toNat_ofNat]
    omega
  unfold agedOut BitVec.ult
  dsimp only
  rw [isStamp, wraps]

section Table

variable {state : VtepState version} {bursts : Nat} {lastUse : Nat → MacKey → Nat} {i : Nat}
  {table : MacTable (DestAddresses version)}

section

variable (stamped : Stamped state bursts lastUse) (isLive : (state.ports i).macToDst = .live table)

include stamped isLive

/-- What is dropped of the entries of a port. -/
theorem Stamped.agedOut_iff {key : MacKey} (present : (table.contents key).isSome = true)
    (mac : Mac) :
    agedOut state.vtepTick state.maxLifetime mac (table.contents key) = true ↔
      state.maxLifetime.toNat < (bursts - lastUse i key) % 2 ^ 64 := by
  obtain ⟨entry, isEntry⟩ := isSome_iff_exists.mp present
  have isThere : (state.ports i).macToDst.contents key = some entry := by
    rw [isLive]
    exact isEntry
  obtain ⟨inPast, isStamp⟩ := stamped.past i key entry isThere
  rw [isEntry, stamped.isTick, agedOut_stamp inPast isStamp, decide_eq_true_iff]

/-- The entries that cleaning a port leaves. -/
theorem Stamped.contents_cleaned (key : MacKey) :
    (foreachElem table (agedOut state.vtepTick state.maxLifetime)).2.contents key =
      if ¬ Skipped table key ∧ state.maxLifetime.toNat < (bursts - lastUse i key) % 2 ^ 64 then
        none
      else
        table.contents key := by
  have wellFormed := stamped.formed i table isLive
  rw [(foreachElem_spec wellFormed _).contents]
  by_cases present : (table.contents key).isSome = true
  · simp only [mem_visibleKeys wellFormed, present, true_and, stamped.agedOut_iff isLive present]
  · rw [Bool.not_eq_true, isSome_eq_false_iff, isNone_iff_eq_none] at present
    rw [present, ite_self, ite_self]

end

/-- A slot after its old entries were dropped. -/
def TableSlot.cleaned (tick maxLife : BitVec 64) :
    TableSlot (DestAddresses version) → TableSlot (DestAddresses version)
  | .live table => .live (foreachElem table (agedOut tick maxLife)).2
  | slot => slot

/--
Cleaning drops exactly the entries beyond an age if these are visited and
their wrapped age is beyond it too.
-/
theorem Stamped.cleaned_exactly_iff (stamped : Stamped state bursts lastUse) (i : Nat) :
    (∀ key, ((state.ports i).macToDst.cleaned state.vtepTick state.maxLifetime).contents key =
          if state.maxLifetime.toNat < bursts - lastUse i key then
            none
          else
            (state.ports i).macToDst.contents key) ↔
      ∀ table key, (state.ports i).macToDst = .live table → (table.contents key).isSome = true →
        state.maxLifetime.toNat < bursts - lastUse i key → ¬ Skipped table key ∧
            state.maxLifetime.toNat < (bursts - lastUse i key) % 2 ^ 64 := by
  cases isSlot : (state.ports i).macToDst with
  | absent | freed =>
    refine ⟨fun _ _ _ isLive => (nomatch isLive), fun _ key => ?_⟩
    exact (ite_self none).symm
  | live table =>
    have cleaned := stamped.contents_cleaned isSlot
    constructor
    · rintro exactly _ key ⟨rfl⟩ present old
      by_contra stays
      have left := (cleaned key).symm.trans (exactly key)
      rw [if_neg stays, if_pos old] at left
      rw [left] at present
      cases present
    · intro dropped key
      refine (cleaned key).trans ?_
      by_cases present : (table.contents key).isSome = true
      · by_cases old : state.maxLifetime.toNat < bursts - lastUse i key
        · rw [if_pos old, if_pos (dropped table key rfl present old)]
        · have young : ¬ state.maxLifetime.toNat <
                (bursts - lastUse i key) % 2 ^ 64 := fun wrapped =>
            old (wrapped.trans_le (Nat.mod_le _ _))
          rw [if_neg old, if_neg (fun both => young both.2)]
          rfl
      · have noEntry : table.contents key = none := by simpa using present
        show _ = if _ then none else table.contents key
        rw [noEntry, ite_self, ite_self]

/-- Cleaning changes nothing if no entry that is visited is old. -/
theorem Stamped.cleaned_eq_iff (stamped : Stamped state bursts lastUse) (i : Nat) :
    (state.ports i).macToDst.cleaned state.vtepTick state.maxLifetime = (state.ports i).macToDst ↔
      ∀ table key, (state.ports i).macToDst = .live table → (table.contents key).isSome = true →
        state.maxLifetime.toNat < (bursts - lastUse i key) % 2 ^ 64 → Skipped table key := by
  cases isSlot : (state.ports i).macToDst with
  | absent | freed => exact ⟨fun _ _ _ isLive => (nomatch isLive), fun _ => rfl⟩
  | live table =>
    have wellFormed := stamped.formed i table isSlot
    constructor
    · rintro same _ key ⟨rfl⟩ present old
      by_contra notSkipped
      have contents := stamped.contents_cleaned isSlot key
      rw [TableSlot.live.inj same, if_pos ⟨notSkipped, old⟩] at contents
      rw [contents] at present
      cases present
    · intro young
      refine congrArg TableSlot.live (foreachFrom_of_kept (fun visit member => ?_))
      have visits := (foreachElem_spec wellFormed
        (agedOut state.vtepTick state.maxLifetime)).visited
      have member : visit ∈ (foreachElem table _).1 := member
      rw [visits] at member
      obtain ⟨key, isVisible, rfl⟩ := List.mem_map.mp member
      obtain ⟨present, notSkipped⟩ := (mem_visibleKeys wellFormed).mp isVisible
      refine Bool.eq_false_iff.mpr (fun aged => notSkipped ?_)
      exact young table key rfl present ((stamped.agedOut_iff isSlot present _).mp aged)

end Table

/-- Cleaning the table of a port that was found. -/
def cleanedAt (world : VtepWorld ι version) (i : Nat) :
    EStateM.Result VtepStop (VtepWorld ι version) Unit :=
  match (world.state.ports i).macToDst with
  | .freed => .error .freedTable world
  | slot =>
    .ok () { world with
        state :=
          world.state.withMacs i (slot.cleaned world.state.vtepTick world.state.maxLifetime) }

theorem VtepState.withMacs_self (state : VtepState version) (i : Nat) :
    state.withMacs i (state.ports i).macToDst = state := by
  unfold VtepState.withMacs
  rw [update_eq_self]

/-- `pg_vtep_cleanup_mac`, by the number it is given. -/
theorem pgVtepCleanupMac_run (brick : Brick ι) (portId : Int) (world : VtepWorld ι version) :
    pgVtepCleanupMac brick portId world =
      if (brick.sides (pgFlipSide world.state.output)).nb = 0 then
        .error (.aborted .fault) world
      else if ((brick.sides (pgFlipSide world.state.output)).nb : Int) ≤ portId then
        .ok () world
      else if portId.tmod (brick.sides (pgFlipSide world.state.output)).nb < 0 then
        .error (.aborted .fault) world
      else
        cleanedAt world (portId.tmod (brick.sides (pgFlipSide world.state.output)).nb).toNat := by
  have found : portOfId brick portId world =
        if (brick.sides (pgFlipSide world.state.output)).nb = 0 then
          .error (.aborted .fault) world
        else if ((brick.sides (pgFlipSide world.state.output)).nb : Int) ≤ portId then
          .ok none world
        else if portId.tmod (brick.sides (pgFlipSide world.state.output)).nb < 0 then
          .error (.aborted .fault) world
        else
          .ok (some (portId.tmod (brick.sides (pgFlipSide world.state.output)).nb).toNat)
            world := by
    show (if _ then _ else if _ then _ else if _ then _ else _ :
      VtepM ι version (Option Nat)) world = _
    split_ifs <;> rfl
  unfold pgVtepCleanupMac
  split_ifs with noPort beyond before
  · rw [if_pos noPort] at found
    exact bind_of_error found _
  · rw [if_neg noPort, if_pos beyond] at found
    exact bind_of_ok found _
  · rw [if_neg noPort, if_neg beyond, if_pos before] at found
    exact bind_of_error found _
  · rw [if_neg noPort, if_neg beyond, if_neg before] at found
    rw [bind_of_ok found]
    generalize (portId.tmod _).toNat = i
    refine (bind_get _ _).trans ?_
    unfold cleanedAt
    have same := world.state.withMacs_self i
    cases isSlot : (world.state.ports i).macToDst with
    | absent =>
      rw [isSlot] at same
      dsimp only [TableSlot.cleaned]
      rw [same]
      rfl
    | freed | live table => rfl

variable {i : Nat}

theorem cleanedAt_eq_ok {world left : VtepWorld ι version} :
    cleanedAt world i = .ok () left ↔ (world.state.ports i).macToDst ≠ .freed ∧ left = { world with
            state :=
              world.state.withMacs i ((world.state.ports i).macToDst.cleaned world.state.vtepTick
                  world.state.maxLifetime) } := by
  unfold cleanedAt
  cases (world.state.ports i).macToDst with
  | absent => simp [eq_comm]
  | freed => simp
  | live table => simp [eq_comm]

theorem VtepState.withMacs_inj {state : VtepState version}
    {slot other : TableSlot (DestAddresses version)} :
    state.withMacs i slot = state.withMacs i other ↔ slot = other := by
  refine ⟨fun same => ?_, congrArg _⟩
  have samePort := congrFun (congrArg VtepState.ports same) i
  simp only [withMacs, update_self] at samePort
  exact congrArg VtepPort.macToDst samePort

theorem tmod_neg_or_zero {portId : Int} {nb : Nat} (isNegative : portId < 0) :
    portId.tmod nb < 0 ∨ portId.tmod nb = 0 := by
  have nonneg := Int.tmod_nonneg nb (show 0 ≤ -portId by omega)
  rw [Int.neg_tmod] at nonneg
  omega

/-- `pg_vtep_cleanup_mac` on a vtep whose stamps are right. -/
theorem Stamped.cleansExactly_iff {host : VtepHost version} {bursts : Nat}
    {lastUse : Nat → MacKey → Nat} (stamped : Stamped host.state bursts lastUse) (brick : Brick ι)
    (portId : Int) (around : Surroundings) :
    CleansExactly brick host (fun i key => bursts - lastUse i key) portId around ↔
      AgesRight brick host.state (fun i key => bursts - lastUse i key)
        portId := by
  have run := pgVtepCleanupMac_run brick portId (host.world around (fun _ => Mbuf.zero))
  have isState : (host.world around (fun _ => Mbuf.zero) : VtepWorld ι version).state =
        host.state :=
    rfl
  rw [isState] at run
  unfold CleansExactly
  rw [run]
  -- `port_id % nb_ports` is computed before the bound on `port_id` is checked.
  by_cases noPort : (brick.sides (pgFlipSide host.state.output)).nb = 0
  · rw [if_pos noPort]
    refine ⟨fun ⟨left, ran, _⟩ => (nomatch ran), fun right => ?_⟩
    have linked := right.linked
    omega
  rw [if_neg noPort]
  by_cases beyond : ((brick.sides (pgFlipSide host.state.output)).nb : Int) ≤ portId
  · rw [if_pos beyond]
    refine ⟨fun _ => ⟨by omega, ?_, ?_⟩, fun _ => ⟨_, rfl, ?_, ?_⟩⟩
    · intro i isPort below
      omega
    · intro isNegative
      omega
    · exact fun _ => rfl
    · intro i isPort below
      omega
  rw [if_neg beyond]
  -- A negative id passes the check, and its remainder is 0 or a place before the ports.
  by_cases isNegative : portId < 0
  · rcases tmod_neg_or_zero isNegative with before | isZero
    · rw [if_pos before]
      refine ⟨fun ⟨left, ran, _⟩ => (nomatch ran), fun right => ?_⟩
      have isZero := (right.negative isNegative).1
      omega
    · rw [if_neg (by omega), isZero, Int.toNat_zero]
      constructor
      · rintro ⟨left, ran, unchanged, _⟩
        obtain ⟨inUse, rfl⟩ := cleanedAt_eq_ok.mp ran
        have same : host.state.withMacs 0 _ = host.state.withMacs 0 (host.state.ports 0).macToDst :=
          (unchanged (.inl isNegative)).trans (host.state.withMacs_self 0).symm
        have young := (stamped.cleaned_eq_iff 0).mp (VtepState.withMacs_inj.mp same)
        refine ⟨by omega, fun i isPort below => ?_, fun _ => ⟨isZero, inUse, young⟩⟩
        omega
      · intro right
        obtain ⟨_, inUse, young⟩ := right.negative isNegative
        refine ⟨_, cleanedAt_eq_ok.mpr ⟨inUse, rfl⟩, fun _ => ?_, ?_⟩
        · show host.state.withMacs 0 ((host.state.ports 0).macToDst.cleaned
            host.state.vtepTick host.state.maxLifetime) = host.state
          rw [(stamped.cleaned_eq_iff 0).mpr young, VtepState.withMacs_self]
        · intro i isPort below
          omega
  · obtain ⟨i, rfl⟩ : ∃ i : Nat, portId = i := ⟨portId.toNat, by omega⟩
    have isPlace : (i : Int).tmod (brick.sides (pgFlipSide host.state.output)).nb = i :=
      Int.tmod_eq_of_lt (by omega) (by omega)
    rw [isPlace, if_neg (by omega), Int.toNat_natCast]
    constructor
    · rintro ⟨left, ran, _, exactly⟩
      obtain ⟨inUse, rfl⟩ := cleanedAt_eq_ok.mp ran
      obtain ⟨slot, isLeft, _, contents⟩ := exactly i rfl (by omega)
      have isSlot := VtepState.withMacs_inj.mp isLeft
      rw [← isSlot] at contents
      refine ⟨by omega, fun k isPort below => ?_, fun less => ?_⟩
      · obtain rfl : k = i := by omega
        exact ⟨inUse, (stamped.cleaned_exactly_iff k).mp contents⟩
      · omega
    · intro right
      obtain ⟨inUse, dropped⟩ := right.inside i rfl (by omega)
      refine ⟨_, cleanedAt_eq_ok.mpr ⟨inUse, rfl⟩, fun outside => ?_, ?_⟩
      · omega
      · intro k isPort below
        obtain rfl : k = i := by omega
        refine ⟨_, rfl, ?_, (stamped.cleaned_exactly_iff k).mpr dropped⟩
        cases isSlot : (host.state.ports k).macToDst with
        | absent => simp [isState, isSlot, TableSlot.cleaned]
        | freed => exact absurd isSlot inUse
        | live table => simp [isState, isSlot, TableSlot.cleaned]

/-- A burst of no packets on the output side only counts. -/
theorem vtepBurst_empty (brick : Brick ι) (edgeIndex : Nat) (world : VtepWorld ι version) :
    vtepBurst brick world.state.output edgeIndex 0#64 world = .ok 0 world.ticked := by
  have nothing : lowBits 0#64 = [] := by decide
  have handled : (if world.ticked.state.flags = pgVtepAllOpti then
        decapsulateSimple brick world.state.output 0#64
      else
        decapsulate brick world.state.output 0#64 : VtepM ι version Int)
        world.ticked = .ok 0 world.ticked := by
    unfold decapsulateSimple decapsulate classified
    rw [nothing]
    split
    · show decapsulateSimpleFrom _ _ _ _ _ 0#64 _ = _
      cases List.range _ <;> rfl
    · show decapsulateFrom _ _ _ _ _ 0#64 _ = _
      cases List.range _ <;> rfl
  rw [vtepBurst_eq, if_pos rfl]
  refine (bind_get _ _).trans ?_
  show EStateM.tryCatch _ _ _ = _
  unfold EStateM.tryCatch
  rw [handled]

/-- A vtep that has handled some more bursts of no packets. -/
def VtepHost.idled (host : VtepHost version) (count : Nat) : VtepHost version :=
  { host with
    state := { host.state with vtepTick := host.state.vtepTick + BitVec.ofNat 64 count } }

@[simp] theorem stopped_idled (host : VtepHost version) (count : Nat) :
    (host.idled count).stopped = host.stopped :=
  rfl

@[simp] theorem ports_idled (host : VtepHost version) (count : Nat) :
    (host.idled count).state.ports = host.state.ports :=
  rfl

@[simp] theorem output_idled (host : VtepHost version) (count : Nat) :
    (host.idled count).state.output = host.state.output :=
  rfl

/-- A vtep whose output side is linked can be handed bursts of no packets. -/
theorem idled_reachable [DecidableEq ι] {others : BrickOps ι τ} {aged : Aged ι τ version}
    (reachable : (agedSystem others).Reachable aged) {target : ι} {host : VtepHost version}
    (isVtep : aged.graph.priv target = .own host) (running : host.stopped = none)
    (linked : ((aged.graph.brick target).linkAt host.state.output 0).isSome = true) (count : Nat) :
    ∃ later : Aged ι τ version,
      (agedSystem others).Reachable later ∧
      later.graph.brick = aged.graph.brick ∧
      later.graph.priv target = .own (host.idled count) ∧
      later.bursts target = aged.bursts target + count := by
  induction count with
  | zero =>
    refine ⟨aged, reachable, rfl, isVtep.trans ?_, rfl⟩
    unfold VtepHost.idled
    rw [BitVec.add_zero]
  | succ count ih =>
    obtain ⟨middle, reached, sameBrick, isMiddle, isBursts⟩ := ih
    have ran := vtepBurst_empty (middle.graph.brick target) 0
      ((host.idled count).world calmSurroundings (fun _ => Mbuf.zero))
    have left : (host.idled count).left
          ((VtepOp.burst host.state.output 0 (fun _ => Mbuf.zero) 0#64).run
            (middle.graph.brick target) (host.idled count) calmSurroundings) =
        host.idled (count + 1) := by
      refine (congrArg (host.idled count).left ran).trans ?_
      unfold VtepHost.left VtepHost.idled
      dsimp only [VtepWorld.ticked, VtepHost.world]
      rw [ofNat_add, ← BitVec.add_assoc]
    have stepped : (managedSystem others).step middle.graph
          (.event (.operate target (.burst host.state.output 0 (fun _ => Mbuf.zero) 0#64)
            calmSurroundings))
          { middle.graph with
            priv := update middle.graph.priv target (.own (host.idled (count + 1))) } := by
      refine ⟨host.idled count, isMiddle, running, ?_, ?_⟩
      · rw [sameBrick]
        exact linked
      · rw [left]
    obtain ⟨later, reached, isGraph, counts⟩ := aged_step reached rfl stepped
    refine ⟨later, reached, ?_, ?_, ?_⟩
    · rw [isGraph]
      exact sameBrick
    · rw [isGraph]
      exact update_self ..
    · rw [counts, isBursts]
      show _ + (if target = target then 1 else 0) = _
      rw [if_pos rfl, Nat.add_assoc]

/-- The program before any call, with no burst handled. -/
def vtepHubUnaged : Aged Bool Unit .v4 where
  graph := vtepHubStart
  bursts := fun _ => 0
  lastUse := fun _ _ _ => 0

/-- The vtep has learnt an entry in its first burst. -/
theorem vniZeroHub_aged :
    ∃ aged : Aged Bool Unit .v4,
      (agedSystem (quietOps Bool)).Reachable aged ∧
      aged.graph = vniZeroHub ∧
      aged.bursts false = 1 := by
  have start : (agedSystem (quietOps Bool)).Reachable vtepHubUnaged :=
    .initial ⟨vtepHubStart_initial, rfl⟩
  have begins : (managedSystem (quietOps Bool)).step vtepHubUnaged.graph
        (.event (.call (.link (some false) (some true)))) vtepHubLinked :=
    ⟨none, rfl⟩
  obtain ⟨links, attaches, learns⟩ := vniZeroHub_steps
  obtain ⟨_, reached, isGraph, isLinked⟩ := aged_step start rfl begins
  obtain ⟨_, reached, isGraph, isBoth⟩ := aged_step reached isGraph links
  obtain ⟨_, reached, isGraph, isAttached⟩ := aged_step reached isGraph attaches
  obtain ⟨aged, reached, isGraph, isLearnt⟩ := aged_step reached isGraph learns
  refine ⟨aged, reached, isGraph, ?_⟩
  rw [isLearnt, isAttached, isBoth, isLinked]
  rfl

end Cleanup

end PacketGraph
