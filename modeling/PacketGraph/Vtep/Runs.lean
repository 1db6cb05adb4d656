import PacketGraph.Vtep.Frame
import PacketGraph.Brick.Nodes

namespace PacketGraph

open Effects Option TransitionSystem

/-!
# Runs of a graph with vteps

A run makes linking calls on a graph whose bricks are vteps and bricks of any
other kind, bursts into its vteps on linked ports, and calls their management
operations.  What the environment answers during an operation is part of the
operation.  What it answers while a vtep is notified of a breaking link is
kept beside the state of the vtep.

An operation that stops ends the program.  The vtep remembers why.
-/

variable {ι τ : Type} {version : IpVersion}

/-- What the environment answers while an operation runs. -/
structure Surroundings where
  malloc : Malloc
  clones : Nat → Option (BitVec 64)
  allocs : Nat → Option Mbuf
  answers : Answers
  errors : Nat → Option PgError
  back : Nat → Nat → Bool

/-- A vtep of a run, with the surroundings of its notifications to come. -/
structure VtepHost (version : IpVersion) where
  state : VtepState version
  leaves : Nat → Surroundings
  stopped : Option VtepStop

/-- The world an operation starts in. -/
def VtepHost.world (host : VtepHost version) (around : Surroundings) (pkts : Nat → Mbuf) :
    VtepWorld ι version where
  state := host.state
  pkts := pkts
  tmp := Mbuf.zero
  errp := none
  malloc := around.malloc
  clones := around.clones
  allocs := around.allocs
  answers := around.answers
  errors := around.errors
  back := around.back
  deliveries := []
  refs := PktRef.left
  made := 0
  freed := []
  used := []

/-- The vtep after an operation. -/
def VtepHost.left {α : Type} (host : VtepHost version)
    (result : EStateM.Result VtepStop (VtepWorld ι version) α) : VtepHost version :=
  match result with
  | .ok _ world => { host with state := world.state }
  | .error reason world => { host with state := world.state, stopped := some reason }

theorem VtepHost.state_left {α : Type} (host : VtepHost version)
    (result : EStateM.Result VtepStop (VtepWorld ι version) α) :
    (host.left result).state = (finalState result).state := by
  cases result with
  | ok value world | error reason world => rfl

/-- The notification of a vtep that a link of it breaks. -/
def VtepHost.notified (host : VtepHost version) (brick : Brick ι) (side : Side) (index : Nat) :
    EStateM.Result VtepStop (VtepWorld ι version) Unit :=
  vtepUnlinkNotify brick side index (host.world (host.leaves 0) (fun _ => Mbuf.zero))

/-- The `unlink_notify` callback of a vtep. -/
def vtepOps (ι : Type) (version : IpVersion) : BrickOps ι (VtepHost version) where
  unlinkNotify := fun brick host side index => if host.stopped.isSome then
      (host, none)
    else
      let result := host.notified brick side index
      ({ host.left result with leaves := fun call => host.leaves (1 + call) },
        (finalState result).errp)

/-- The operations of a vtep. -/
inductive VtepOp (ι : Type) (version : IpVersion) where
  | burst (fromSide : Side) (edgeIndex : Nat) (pkts : Nat → Mbuf) (pktsMask : BitVec 64)
  | addVni (neighbor : Option ι) (vni : BitVec 32) (multicastIp : Ip version)
  | addMac (vni : BitVec 32) (mac : BitVec 48)
  | cleanAllMac (portId : Int)
  | cleanupMac (portId : Int)

/-- The packets that an operation is handed. -/
def VtepOp.pkts : VtepOp ι version → Nat → Mbuf
  | .burst _ _ pkts _ => pkts
  | _ => fun _ => Mbuf.zero

/-- A burst comes in on a linked port. -/
def VtepOp.Linked (op : VtepOp ι version) (brick : Brick ι) : Prop :=
  match op with
  | .burst fromSide edgeIndex _ _ => (brick.linkAt fromSide edgeIndex).isSome = true
  | _ => True

/-- One step of a run. -/
inductive VtepEvent (ι : Type) (version : IpVersion) where
  | call (call : LinkCall ι)
  | operate (target : ι) (op : VtepOp ι version) (around : Surroundings)

/-- A brick as `pg_vtep_new` or `pg_brick_new` makes it. -/
def VtepMade (brick : Brick ι) (node : Node (VtepHost version) τ) : Prop :=
  (∃ name max output ip mac udpDstPort flags leaves state,
    pgVtepNew name max output ip mac udpDstPort flags = .ok (brick, state) ∧
      node = .own { state := state, leaves := leaves, stopped := none }) ∨
    ∃ registry name config state, pgBrickNew registry name config = .ok (brick, state) ∧
        node = .other state

variable {max : Nat} {output : Side} {ip : Ip version} {mac : BitVec 48} {udpDstPort : BitVec 16}
  {flags : BitVec 32} {brick : Brick ι}

section

variable {name : String} {state : VtepState version}
  (made : pgVtepNew name max output ip mac udpDstPort flags = .ok (brick, state))

include made

/-- The brick and the state that `pg_vtep_new` makes. -/
theorem pgVtepNew_spec :
    Fresh brick ∧ brick.type = .multipole ∧ state = vtepInit output ip mac udpDstPort flags := by
  obtain ⟨entry, member, admitted, isConfig, checked, started, allocated⟩ := pgBrickNew_eq_ok made
  rw [List.mem_singleton] at member
  subst member
  simp only [some.injEq] at isConfig
  subst isConfig
  exact ⟨allocEdges_fresh checked allocated, (allocEdges_eq_ok allocated).1,
    (Except.ok.inj started).symm⟩

/-- The output side of a new vtep has one edge. -/
theorem pgVtepNew_output : (brick.sides output).max = 1 := by
  obtain ⟨entry, _, _, isConfig, _, _, allocated⟩ := pgBrickNew_eq_ok made
  simp only [some.injEq] at isConfig
  subst isConfig
  rw [max_allocEdges allocated]
  cases output <;> rfl

end

variable [DecidableEq ι]

/-- The code of an operation. -/
def VtepOp.program (brick : Brick ι) : VtepOp ι version → VtepM ι version Int
  | .burst fromSide edgeIndex _ pktsMask => vtepBurst brick fromSide edgeIndex pktsMask
  | .addVni neighbor vni multicastIp => pgVtepAddVni brick neighbor vni multicastIp
  | .addMac vni mac => pgVtepAddMac brick vni mac
  | .cleanAllMac portId => do
      pgVtepCleanAllMac brick portId
      pure 0
  | .cleanupMac portId => do
      pgVtepCleanupMac brick portId
      pure 0

/-- Run an operation on a vtep. -/
def VtepOp.run (op : VtepOp ι version) (brick : Brick ι) (host : VtepHost version)
    (around : Surroundings) : EStateM.Result VtepStop (VtepWorld ι version) Int :=
  op.program brick (host.world around op.pkts)

/-- The runs of a graph with vteps. -/
def vtepSystem (others : BrickOps ι τ) :
    System (Graph ι (Node (VtepHost version) τ)) (VtepEvent ι version) where
  initial := fun graph => ∀ brick, VtepMade (graph.brick brick) (graph.priv brick)
  step := fun before event after => match event with
    | .call call =>
      ∃ outcome, call.exec (nodeOps (vtepOps ι version) others) before = .ok (outcome, after)
    | .operate target op around =>
      ∃ host, before.priv target = .own host ∧ host.stopped = none ∧
          op.Linked (before.brick target) ∧ after = { before with
              priv :=
                Function.update before.priv target (.own (host.left
                      (op.run (before.brick target) host around))) }

/-- A condition on the operations of a run. -/
def OperatesUnder (guard : Brick ι → VtepHost version → VtepOp ι version → Surroundings → Prop)
    (graph : Graph ι (Node (VtepHost version) τ)) (event : VtepEvent ι version) : Prop :=
  match event with
  | .call _ => True
  | .operate target op around =>
    ∀ host, graph.priv target = .own host → guard (graph.brick target) host op around

variable {property : Brick ι → VtepHost version → Prop} {others : BrickOps ι τ}

variable {graph : Graph ι (Node (VtepHost version) τ)}

/-- A property of single vteps holds at the start if new vteps have it. -/
theorem vtepGraph_initial [Fintype ι]
    (atStart :
      ∀ brick output ip mac udpDstPort flags leaves, Fresh brick → brick.type = .multipole →
        (brick.sides output).max = 1 →
        property brick
          { state := vtepInit output ip mac udpDstPort flags
            leaves := leaves
            stopped := none }) (made : (vtepSystem others).initial graph) :
    NodeGraph property graph := by
  constructor
  · refine linkInvariant_of_fresh fun brick => ?_
    rcases made brick with
      ⟨_, _, _, _, _, _, _, _, _, isNew, _⟩ | ⟨_, _, _, _, isNew, _⟩
    · exact (pgVtepNew_spec isNew).1
    · exact pgBrickNew_fresh isNew
  · intro brick host isHost
    rcases made brick with
      ⟨_, _, _, _, _, _, _, _, _, isNew, isNode⟩ | ⟨_, _, _, _, _, isNode⟩
    · obtain ⟨fresh, multipole, isState⟩ := pgVtepNew_spec isNew
      rw [isNode] at isHost
      rw [← Node.own.inj isHost, isState]
      exact atStart _ _ _ _ _ _ _ fresh multipole (pgVtepNew_output isNew)
    · rw [isNode] at isHost
      exact absurd isHost (by simp)

variable {guard : Brick ι → VtepHost version → VtepOp ι version → Surroundings → Prop}

/--
A step keeps a property of single vteps if linking calls and the operations
that meet a condition do.
-/
theorem vtepGraph_step [Fintype ι] (attach_ok : KeptByAttach property)
    (unlink_ok : KeptByUnlink (vtepOps ι version) property)
    (operate_ok : ∀ brick host op around, WellCounted brick → property brick host → host.stopped =
        none → op.Linked brick → guard brick host op around → property brick (host.left (op.run
        brick host around))) {before after : Graph ι (Node (VtepHost version) τ)}
    {event : VtepEvent ι version} (holds : NodeGraph property before)
    (guarded : OperatesUnder guard before event)
    (stepped : (vtepSystem others).step before event after) : NodeGraph property after := by
  cases event with
  | call call =>
    obtain ⟨outcome, executed⟩ := stepped
    exact holds.exec attach_ok unlink_ok executed
  | operate target op around =>
    obtain ⟨host, isHost, running, linked, rfl⟩ := stepped
    exact holds.update isHost (fun counted specific =>
      operate_ok _ _ _ _ counted specific running linked (guarded host isHost))

/--
A property of single vteps holds in a run if new vteps have it and linking
calls and the operations that meet a condition keep it.
-/
theorem vtepGraph_of_reachable [Fintype ι]
    (atStart :
      ∀ brick output ip mac udpDstPort flags leaves, Fresh brick → brick.type = .multipole →
        property brick
          { state := vtepInit output ip mac udpDstPort flags
            leaves := leaves
            stopped := none }) (attach_ok : KeptByAttach property)
    (unlink_ok : KeptByUnlink (vtepOps ι version) property)
    (operate_ok : ∀ brick host op around, WellCounted brick → property brick host → host.stopped =
        none → op.Linked brick → guard brick host op around → property brick (host.left (op.run
        brick host around)))
    (reachable : ((vtepSystem others).guarded (OperatesUnder guard)).Reachable graph) :
    NodeGraph property graph := by
  refine reachable.invariant ?_ ?_
  · intro start made
    have isInitial : (vtepSystem others).initial start := made
    exact vtepGraph_initial (fun _ _ _ _ _ _ _ fresh multipole _ =>
        atStart _ _ _ _ _ _ _ fresh multipole) isInitial
  · intro before event after holds edge
    exact vtepGraph_step attach_ok unlink_ok operate_ok holds edge.1 edge.2

end PacketGraph
