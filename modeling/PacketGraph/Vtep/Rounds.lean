import PacketGraph.Lib.Lockstep
import PacketGraph.Vtep.Tables
import PacketGraph.Vtep.Sends

namespace PacketGraph

open BitScan Bytes Effects Function List

/-!
# The steps that bursts are made of

What both loops over packets are made of: the steps on tables, which two runs
with the same tables make in lockstep, and the classification of the packets
of a burst.
-/

variable {ι V : Type} {version : IpVersion}

section Shared

/--
Worlds with the same tables, which stay related when both change their ports,
their allocations or their errors alike.
-/
structure SharesTables (same : VtepWorld ι version → VtepWorld ι version → Prop) : Prop where
  ports : ∀ {first second}, same first second → first.state.ports = second.state.ports
  malloc : ∀ {first second}, same first second → first.malloc = second.malloc
  withPorts : ∀ {first second} (change : (Nat → VtepPort version) → Nat → VtepPort version),
      same first second →
      same { first with state := { first.state with ports := change first.state.ports } }
        { second with state := { second.state with ports := change second.state.ports } }
  withMalloc : ∀ {first second} malloc, same first second →
      same { first with malloc := malloc } { second with malloc := malloc }
  withError : ∀ {first second} error, same first second →
      same { first with errp := error } { second with errp := error }

variable {same stop : VtepWorld ι version → VtepWorld ι version → Prop}
  (shares : SharesTables same)

include shares

/-- Both change a port alike. -/
theorem modifyPort_shared (i : Nat) (change : VtepPort version → VtepPort version) :
    Lockstep same (modifyPort i change : VtepM ι version Unit) (modifyPort i change)
      (fun _ => same) stop := by
  refine Lockstep.modify (fun first second related => ?_)
  exact shares.withPorts (fun ports => update ports i (change (ports i))) related

/-- Both set an error. -/
theorem setError_shared (error : PgError) :
    Lockstep same (setError error : VtepM ι version Unit) (setError error)
      (fun _ => same) stop :=
  Lockstep.modify (fun _ _ related => shares.withError _ related)

/-- Both have made the same allocations. -/
theorem setMalloc_shared (malloc : Malloc) :
    Lockstep same (modify (fun world => { world with malloc := malloc }) : VtepM ι version Unit)
      (modify (fun world => { world with malloc := malloc }))
      (fun _ => same) stop :=
  Lockstep.modify (fun _ _ related => shares.withMalloc _ related)

variable (which : PortTable version V)

/-- Both make a table or fail to. -/
theorem initTable_shared (i : Nat) :
    Lockstep same (initTable which i : VtepM ι version Int) (initTable which i)
      (fun _ => same) stop := by
  refine Lockstep.read (fun first second related => ?_)
  rw [shares.malloc related]
  refine Lockstep.bind ((setMalloc_shared shares _).startingAt related) (fun _ => ?_)
  split
  · exact Lockstep.bind (modifyPort_shared shares _ _)
      (fun _ => Lockstep.pure (fun _ _ related => related))
  · exact Lockstep.bind (modifyPort_shared shares _ _)
      (fun _ => Lockstep.pure (fun _ _ related => related))

/-- Both make a dead table again or fail to. -/
theorem fixTable_shared (flag : BitVec 32) (i : Nat) :
    Lockstep same (fixTable which flag i : VtepM ι version Int) (fixTable which flag i)
      (fun _ => same) stop := by
  refine Lockstep.read (fun first second related => ?_)
  rw [shares.ports related]
  split
  · refine Lockstep.bind ((initTable_shared shares which i).startingAt related) (fun ret => ?_)
    split
    · exact Lockstep.bind (setError_shared shares _)
        (fun _ => Lockstep.pure (fun _ _ related => related))
    · exact Lockstep.bind (modifyPort_shared shares _ _)
        (fun _ => Lockstep.pure (fun _ _ related => related))
  · exact (Lockstep.pure (fun _ _ related => related)).startingAt related

/-- Both make the dead tables of a port again or fail to. -/
theorem fixIfDead_shared (i : Nat) :
    Lockstep same (fixIfDead i : VtepM ι version Int) (fixIfDead i)
      (fun _ => same) stop := by
  refine Lockstep.read (fun first second related => ?_)
  rw [shares.ports related]
  split
  · refine Lockstep.bind ((fixTable_shared shares macToDst isMacToDstDead i).startingAt related)
      (fun ret => ?_)
    split
    · exact Lockstep.pure (fun _ _ related => related)
    · exact fixTable_shared shares knownMac isKnownMacDead i
  · exact (Lockstep.pure (fun _ _ related => related)).startingAt related

variable (stops : ∀ first second, same first second → stop first second)

include stops

/-- Both set an entry or stop. -/
theorem setInTable_shared (i : Nat) (mac : Mac) (entry : V) :
    Lockstep same (setInTable which i mac entry : VtepM ι version Unit)
      (setInTable which i mac entry) (fun _ => same) stop := by
  have throws (reason : VtepStop) : Lockstep same (throw reason : VtepM ι version Unit)
        (throw reason) (fun _ => same) stop :=
    Lockstep.throw stops
  refine Lockstep.read (fun first second related => ?_)
  rw [shares.ports related, shares.malloc related]
  split
  · exact (throws _).startingAt related
  · exact (throws _).startingAt related
  · refine Lockstep.bind ((setMalloc_shared shares _).startingAt related) (fun _ => ?_)
    split
    · exact modifyPort_shared shares _ _
    · exact Lockstep.bind (modifyPort_shared shares _ _) (fun _ => throws _)
    · exact throws _

end Shared

section Masks

/-- The masks of a burst after the verdict on one more packet. -/
def Classes.noting (version : IpVersion) (classes : Classes) (i : Nat) (verdict : Mbuf × Bool)
    : Classes where
  multicastMask :=
    if verdict.2 && isMulticastPkt version verdict.1 then
      classes.multicastMask ||| (1#64 <<< i)
    else
      classes.multicastMask
  computedMask :=
    if verdict.2 then classes.computedMask ||| (1#64 <<< i) else classes.computedMask

theorem classifyPkts_cons (udpDstPortBe : BitVec 16) (i : Nat) (rest : List Nat)
    (classes : Classes) (start : VtepWorld ι version) :
    classifyPkts udpDstPortBe (i :: rest) classes start = classifyPkts udpDstPortBe rest
        (classes.noting version i (classifyPkt version udpDstPortBe (start.pkts i)))
        { start with
          pkts :=
            update start.pkts i (classifyPkt version udpDstPortBe (start.pkts i)).1 } :=
  rfl

theorem getLsbD_noting (classes : Classes) (i : Nat) (verdict : Mbuf × Bool) (j : Nat) :
    (classes.noting version i verdict).computedMask.getLsbD j = (classes.computedMask.getLsbD j ||
        (decide (j < 64) && decide (j = i) && verdict.2)) := by
  unfold Classes.noting
  cases verdict.2 with
  | true => rw [if_pos rfl, getLsbD_or_one_shiftLeft, Bool.and_true]
  | false => simp

/-- The packets of a burst after they were classified. -/
def classifiedPkts (version : IpVersion) (udpDstPortBe : BitVec 16) (pkts : Nat → Mbuf)
    (places : List Nat) : Nat → Mbuf :=
  fun j => if j ∈ places then (classifyPkt version udpDstPortBe (pkts j)).1 else pkts j

/-- The places of a burst with packets that are accepted. -/
def acceptedPlaces (version : IpVersion) (udpDstPortBe : BitVec 16) (pkts : Nat → Mbuf)
    (pktsMask : BitVec 64) : List Nat :=
  (lowBits pktsMask).filter (fun j => (classifyPkt version udpDstPortBe (pkts j)).2)

/--
`classify_pkts` rewrites every packet of the burst, and its mask names those
that it accepts.
-/
theorem classifyPkts_run (udpDstPortBe : BitVec 16) {places : List Nat} (distinct : places.Nodup)
    (classes : Classes) (start : VtepWorld ι version) :
    ∃ after, classifyPkts udpDstPortBe places classes start = .ok after { start with
              pkts :=
                classifiedPkts version udpDstPortBe start.pkts places } ∧
        ∀ j < 64, after.computedMask.getLsbD j = (classes.computedMask.getLsbD j ||
              (decide (j ∈ places) && (classifyPkt version udpDstPortBe (start.pkts j)).2)) := by
  induction places generalizing classes start with
  | nil =>
    refine ⟨classes, ?_, fun j _ => by simp⟩
    have none : classifiedPkts version udpDstPortBe start.pkts [] = start.pkts := by
      funext j
      simp [classifiedPkts]
    rw [none]
    rfl
  | cons i rest ih =>
    obtain ⟨notLater, distinctRest⟩ := nodup_cons.mp distinct
    obtain ⟨after, ran, bits⟩ :=
      ih distinctRest (classes.noting version i
          (classifyPkt version udpDstPortBe (start.pkts i))) { start with
          pkts :=
            update start.pkts i (classifyPkt version udpDstPortBe (start.pkts i)).1 }
    refine ⟨after, ?_, fun j inside => ?_⟩
    · rw [classifyPkts_cons, ran]
      congr 2
      funext j
      unfold classifiedPkts
      by_cases here : j = i
      · subst here
        simp [notLater]
      · simp [here]
    · rw [bits j inside, getLsbD_noting]
      by_cases here : j = i
      · subst here
        simp [notLater, inside]
      · simp [here]

/-- The loop over the ports starts with the packets that were accepted. -/
theorem classified_run {Value : Type} (brick : Brick ι) (fromSide : Side) (pktsMask : BitVec 64)
    (loop : (eths hdrs : Nat → Nat) → List Nat → BitVec 64 → VtepM ι version Value)
    (start : VtepWorld ι version) :
    ∃ accepted, lowBits accepted = acceptedPlaces version start.state.udpDstPortBe start.pkts
            pktsMask ∧
        classified brick fromSide pktsMask loop start =
          loop (fun j => (start.pkts j).dataOff + sAddr) (fun j => pgUtilsGetL3 (start.pkts j))
            (List.range (brick.sides (pgFlipSide fromSide)).nb) accepted
            { start with
              pkts :=
                classifiedPkts version start.state.udpDstPortBe start.pkts
                  (lowBits pktsMask) } := by
  obtain ⟨classes, ran, bits⟩ :=
    classifyPkts_run start.state.udpDstPortBe (lowBits_nodup pktsMask)
      { multicastMask := 0#64, computedMask := 0#64 } start
  refine ⟨classes.computedMask, ?_, bind_of_ok ran _⟩
  unfold acceptedPlaces
  rw [lowBits_eq_setPositions, lowBits_eq_setPositions]
  unfold setPositions
  rw [filter_filter]
  refine filter_congr (fun j member => ?_)
  rw [bits j (mem_range.mp member)]
  simp [Bool.and_comm]

end Masks

end PacketGraph
