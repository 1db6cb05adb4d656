import PacketGraph.Vtep.Destination
import PacketGraph.Vtep.Rounds

namespace PacketGraph

open BitScan BitVec Bytes Effects Function List

/-!
# The fast path of decapsulation

With `PG_VTEP_NO_COPY` and `PG_VTEP_NO_INNERMAC_CHECK` the loop of
`decapsulate` works on the packets of the burst itself and forwards all packets
of a VNI, as `decapsulate_simple` does.  The two loops run in lockstep: where
`decapsulate` takes a packet from `state->pkts`, it is the packet of the burst.
-/

variable {ι V : Type} {version : IpVersion}

/-- Two calls hand the same packets to the same neighbour. -/
def SameCall (first second : Delivery ι) : Prop :=
  first.toSend = second.toSend ∧ ∀ j, first.mask.getLsbD j = true → first.pkts j = second.pkts j

/-- Two runs made the same calls and left the same ports. -/
structure SameEffects (slow fast : VtepWorld ι version) : Prop where
  deliveries : List.Forall₂ SameCall slow.deliveries fast.deliveries
  ports : slow.state.ports = fast.state.ports

/-- A packet is long enough for its headers. -/
def LongEnough (version : IpVersion) (pkt : Mbuf) : Prop :=
  pkt.l2Len + sizeofHeaders version ≤ pkt.dataLen

/--
The worlds of the two loops, in a round over the packets of a mask that has
taken those of `vniMask`.
-/
structure Alike (pktsMask vniMask : BitVec 64) (slow fast : VtepWorld ι version) : Prop where
  noCopy : slow.state.noCopy = true
  unchecked : slow.state.noInnermacCheck = true
  ports : slow.state.ports = fast.state.ports
  tick : slow.state.vtepTick = fast.state.vtepTick
  pkts : slow.pkts = fast.pkts
  malloc : slow.malloc = fast.malloc
  answers : slow.answers = fast.answers
  errors : slow.errors = fast.errors
  errp : slow.errp = fast.errp
  deliveries : List.Forall₂ SameCall slow.deliveries fast.deliveries
  within : ∀ j, vniMask.getLsbD j = true → pktsMask.getLsbD j = true
  taken : ∀ j, vniMask.getLsbD j = true → slow.state.pkts j = slow.pkts j
  long : ∀ j, pktsMask.getLsbD j = true → vniMask.getLsbD j = false →
      LongEnough version (slow.pkts j)

section Steps

variable {pktsMask vniMask : BitVec 64} {slow fast : VtepWorld ι version}

theorem Alike.effects (alike : Alike pktsMask vniMask slow fast) : SameEffects slow fast :=
  ⟨alike.deliveries, alike.ports⟩

/-- Both loops work on the same tables. -/
theorem alike_sharesTables :
    SharesTables (Alike pktsMask vniMask : VtepWorld ι version → VtepWorld ι version → Prop) where
  ports := fun alike => alike.ports
  malloc := fun alike => alike.malloc
  withPorts := fun change alike => { alike with ports := congrArg change alike.ports }
  withMalloc := fun _ alike => { alike with malloc := rfl }
  withError := fun _ alike => { alike with errp := rfl }

end Steps

section Packets

variable {pktsMask vniMask : BitVec 64} {slow fast : VtepWorld ι version}

/-- The world after a packet was changed that is one of the burst. -/
def VtepWorld.withShared (world : VtepWorld ι version) (j : Nat) (pkt : Mbuf) :
    VtepWorld ι version :=
  { world with
    state :=
      { world.state with pkts := update world.state.pkts j pkt }
    pkts := update world.pkts j pkt }

theorem writePkt_shared (world : VtepWorld ι version) (noCopy : world.state.noCopy = true)
    (j : Nat) (pkt : Mbuf) : writePkt .out j pkt world = .ok () (world.withShared j pkt) := by
  show EStateM.Result.ok PUnit.unit { world with
      state :=
        { world.state with pkts := update world.state.pkts j pkt }
      pkts :=
        if world.state.noCopy then update world.pkts j pkt else world.pkts } = _
  rw [if_pos noCopy]
  rfl

variable {j : Nat}

/-- Without copies a packet of the VNI loses its headers in place. -/
theorem checkAndCloneVniPkts_shared {hdrs : Nat → Nat} {i : Nat} {rest : List Nat} {inner : Mbuf}
    (noCopy : slow.state.noCopy = true)
    (isFor : vxVni version (slow.pkts j).buf (hdrs j) = (slow.state.ports i).vni)
    (isInner : rtePktmbufAdj (slow.pkts j) ((slow.pkts j).l2Len + sizeofHeaders version) = some
        inner) :
    checkAndCloneVniPkts hdrs i (j :: rest) vniMask slow =
      checkAndCloneVniPkts hdrs i rest (vniMask ||| (1#64 <<< j)) ({ slow with
            refs := update slow.refs j (.given j) }.withShared j
          inner) := by
  have clones : clonePkt j slow = .ok (some (slow.pkts j, PktRef.given j)) slow := by
    show (if slow.state.noCopy then
        pure (some (slow.pkts j, PktRef.given j))
      else _ : VtepM ι version _) slow = _
    rw [if_pos noCopy]
    rfl
  refine (bind_get _ _).trans ?_
  rw [if_pos isFor, bind_of_ok clones]
  let pointed : VtepWorld ι version := { slow with refs := update slow.refs j (.given j) }
  refine (bind_of_ok (show pointTo j (.given j) slow = .ok () pointed from rfl) _).trans ?_
  rw [bind_of_ok (writePkt_shared pointed noCopy j _), isInner]
  have wrote := writePkt_shared (pointed.withShared j (slow.pkts j)) noCopy j inner
  refine (bind_of_ok wrote _).trans ?_
  unfold VtepWorld.withShared
  dsimp only
  rw [update_idem, update_idem]

/-- The packets that a loop is yet to take are not affected. -/
theorem Alike.taking (alike : Alike pktsMask vniMask slow fast)
    (inside : pktsMask.getLsbD j = true) (inner : Mbuf) (refs : Nat → PktRef) :
    Alike pktsMask (vniMask ||| (1#64 <<< j)) ({ slow with refs := refs }.withShared j inner)
      { fast with pkts := update fast.pkts j inner } := by
  have bit (k : Nat) (other : k ≠ j) :
      (vniMask ||| (1#64 <<< j)).getLsbD k = vniMask.getLsbD k := by
    rw [getLsbD_or_one_shiftLeft]
    simp [other]
  refine { alike with pkts := ?_, within := ?_, taken := ?_, long := ?_ }
  · show update slow.pkts j inner = update fast.pkts j inner
    rw [alike.pkts]
  · intro k isSet
    by_cases here : k = j
    · rw [here]
      exact inside
    · rw [bit k here] at isSet
      exact alike.within k isSet
  · intro k isSet
    show update slow.state.pkts j inner k = update slow.pkts j inner k
    by_cases here : k = j
    · rw [here, update_self, update_self]
    · rw [bit k here] at isSet
      rw [update_of_ne here, update_of_ne here]
      exact alike.taken k isSet
  · intro k member left
    have inWord : k < 64 := lt_of_getLsbD member
    have other : k ≠ j := by
      rintro rfl
      rw [getLsbD_or_one_shiftLeft] at left
      simp [inWord] at left
    rw [bit k other] at left
    show LongEnough version (update slow.pkts j inner k)
    rw [update_of_ne other]
    exact alike.long k member left

variable {places : List Nat}

/-- Both loops take the packets of a VNI. -/
theorem checkVniPkts_alike (hdrs : Nat → Nat) (i : Nat) (distinct : places.Nodup)
    (left : ∀ j ∈ places, pktsMask.getLsbD j = true ∧ vniMask.getLsbD j = false) :
    Lockstep (Alike pktsMask vniMask)
      (checkAndCloneVniPkts hdrs i places vniMask : VtepM ι version (BitVec 64))
      (checkVniPkts hdrs i places vniMask)
      (Alike pktsMask) SameEffects := by
  induction places generalizing vniMask with
  | nil => exact Lockstep.pure (fun _ _ alike => alike)
  | cons j rest ih =>
    obtain ⟨notLater, distinctRest⟩ := nodup_cons.mp distinct
    obtain ⟨inside, unset⟩ := left j mem_cons_self
    have leftRest : ∀ k ∈ rest, pktsMask.getLsbD k = true ∧ vniMask.getLsbD k = false :=
      fun k member => left k (mem_cons_of_mem j member)
    intro slow fast alike
    have unfolded : checkVniPkts hdrs i (j :: rest) vniMask fast =
          (if vxVni version (slow.pkts j).buf (hdrs j) = (slow.state.ports i).vni then
            (do
              writePkt .burst j ((rtePktmbufAdj (slow.pkts j)
                  ((slow.pkts j).l2Len + sizeofHeaders version)).getD (slow.pkts j))
              checkVniPkts hdrs i rest (vniMask ||| (1#64 <<< j)))
          else
            checkVniPkts hdrs i rest vniMask : VtepM ι version _) fast := by
      rw [alike.pkts, alike.ports]
      rfl
    by_cases isFor : vxVni version (slow.pkts j).buf (hdrs j) = (slow.state.ports i).vni
    · have long := alike.long j inside unset
      have isInner : rtePktmbufAdj (slow.pkts j)
              ((slow.pkts j).l2Len + sizeofHeaders version) = some _ :=
        if_neg (Nat.not_lt.mpr long)
      have stillLeft : ∀ k ∈ rest, pktsMask.getLsbD k = true ∧
              (vniMask ||| (1#64 <<< j)).getLsbD k = false := by
        intro k member
        obtain ⟨inMask, unset⟩ := leftRest k member
        have other : k ≠ j := fun same => notLater (same ▸ member)
        refine ⟨inMask, ?_⟩
        rw [getLsbD_or_one_shiftLeft, unset]
        simp [other]
      rw [checkAndCloneVniPkts_shared alike.noCopy isFor isInner, unfolded, if_pos isFor, isInner]
      exact ih distinctRest stillLeft _ _ (alike.taking inside _ _)
    · rw [unfolded, if_neg isFor]
      have passed : checkAndCloneVniPkts hdrs i (j :: rest) vniMask slow =
            checkAndCloneVniPkts hdrs i rest vniMask slow := by
        show (if vxVni version (slow.pkts j).buf (hdrs j) = (slow.state.ports i).vni then _
          else checkAndCloneVniPkts hdrs i rest vniMask : VtepM ι version _) slow = _
        rw [if_neg isFor]
      rw [passed]
      exact ih distinctRest leftRest slow fast alike

/-- Both loops learn the sources of the packets they took. -/
theorem addDstInerMacs_alike (eths hdrs : Nat → Nat) (i : Nat)
    (took : ∀ j ∈ places, vniMask.getLsbD j = true) :
    Lockstep (Alike pktsMask vniMask)
      (addDstInerMacs .out eths hdrs i places : VtepM ι version Unit)
      (addDstInerMacs .burst eths hdrs i places)
      (fun _ => Alike pktsMask vniMask) SameEffects := by
  induction places with
  | nil => exact Lockstep.pure (fun _ _ alike => alike)
  | cons j rest ih =>
    refine Lockstep.read (fun slow fast alike => ?_)
    have same : slow.pktsOf .out j = fast.pktsOf .burst j :=
      (alike.taken j (took j mem_cons_self)).trans (congrFun alike.pkts j)
    rw [same, alike.tick]
    refine Lockstep.bind ((setInTable_shared alike_sharesTables macToDst
        (fun _ _ alike => alike.effects) _ _ _).startingAt alike) (fun _ => ?_)
    have notes (mac : Mac) : Lockstep (Alike pktsMask vniMask)
          (noteUse i mac : VtepM ι version Unit) (noteUse i mac)
          (fun _ => Alike pktsMask vniMask) SameEffects :=
      Lockstep.modify (fun _ _ alike => { alike with })
    exact Lockstep.bind (notes _) (fun _ => ih (fun k member =>
        took k (mem_cons_of_mem j member)))

/-- Both loops write to a packet they took. -/
theorem writePkt_alike (took : vniMask.getLsbD j = true) (pkt : Mbuf) :
    Lockstep (Alike pktsMask vniMask)
      (writePkt .out j pkt : VtepM ι version Unit) (writePkt .burst j pkt)
      (fun _ => Alike pktsMask vniMask) SameEffects := by
  intro slow fast alike
  rw [writePkt_shared slow alike.noCopy]
  have same : vniMask ||| (1#64 <<< j) = vniMask := by
    refine eq_of_getLsbD_eq (fun k _ => ?_)
    rw [getLsbD_or_one_shiftLeft]
    by_cases here : k = j
    · simp [here, took]
    · simp [here]
  refine ⟨rfl, ?_⟩
  have after := alike.taking (alike.within j took) pkt slow.refs
  rw [same] at after
  exact after

theorem restoreMetadata_alike (took : ∀ j ∈ places, vniMask.getLsbD j = true) :
    Lockstep (Alike pktsMask vniMask) (restoreMetadata .out places : VtepM ι version Unit)
      (restoreMetadata .burst places)
      (fun _ => Alike pktsMask vniMask) SameEffects := by
  induction places with
  | nil => exact Lockstep.pure (fun _ _ alike => alike)
  | cons j rest ih =>
    have tookFirst := took j mem_cons_self
    refine Lockstep.read (fun slow fast alike => ?_)
    have same : slow.pktsOf .out j = fast.pktsOf .burst j :=
      (alike.taken j tookFirst).trans (congrFun alike.pkts j)
    rw [same]
    exact Lockstep.bind ((writePkt_alike tookFirst _).startingAt alike)
      (fun _ => ih (fun k member => took k (mem_cons_of_mem j member)))

end Packets

section Loops

variable {pktsMask vniMask : BitVec 64}

variable (brick : Brick ι)

variable {slow fast : VtepWorld ι version}

/-- Both loops hand the packets they took to the same neighbour. -/
theorem burstTo_alike (side fromSide : Side) (i : Nat) (alike : Alike pktsMask vniMask slow fast) :
    Lockstep (fun state twin => state = slow ∧ twin = fast) (burstTo
        (portCall brick side fromSide i (slow.pktsOf .out) vniMask))
      (burstTo (portCall brick side fromSide i (fast.pktsOf .burst) vniMask))
      (fun _ => Alike pktsMask vniMask) SameEffects := by
  unfold portCall
  cases isSend : edgeSend brick side i fromSide vniMask with
  | none => exact (Lockstep.pure (fun _ _ alike => alike)).startingAt alike
  | some send =>
    have isMask : send.mask = vniMask := by
      unfold edgeSend at isSend
      split at isSend
      · rw [← Option.some.inj isSend]
      · cases isSend
    have sameCall : SameCall { send with edgeIndex := i, pkts := slow.pktsOf .out }
          { send with edgeIndex := i, pkts := fast.pktsOf .burst } := by
      refine ⟨rfl, fun j isSet => ?_⟩
      change send.mask.getLsbD j = true at isSet
      rw [isMask] at isSet
      exact (alike.taken j isSet).trans (congrFun alike.pkts j)
    rintro _ _ ⟨rfl, rfl⟩
    refine ⟨congrFun alike.answers 0, ?_⟩
    exact { alike with
      answers := congrArg (Answers.after · 1) alike.answers
      errors := funext (fun call => congrFun alike.errors (1 + call))
      errp :=
        congrArg₂ (· <|> ·) (congrFun alike.errors 0) alike.errp
      deliveries :=
        rel_append alike.deliveries (List.Forall₂.cons sameCall List.Forall₂.nil) }

/-- What follows the choice of the packets of a VNI. -/
theorem deliverOn_alike (fromSide : Side) (eths hdrs : Nat → Nat) (i : Nat) :
    Lockstep (Alike pktsMask vniMask) (deliverOn brick fromSide .out eths hdrs i vniMask :
        VtepM ι version Int)
      (deliverOn brick fromSide .burst eths hdrs i vniMask)
      (fun _ => Alike pktsMask vniMask) SameEffects := by
  have took : ∀ j ∈ lowBits vniMask, vniMask.getLsbD j = true :=
    fun j member => mem_lowBits.mp member
  refine Lockstep.bind (addDstInerMacs_alike eths hdrs i took) (fun _ => ?_)
  refine Lockstep.bind (restoreMetadata_alike took) (fun _ => ?_)
  exact Lockstep.read (fun slow fast alike => burstTo_alike brick _ fromSide i alike)

theorem Alike.next (alike : Alike pktsMask vniMask slow fast) :
    Alike (pktsMask ^^^ vniMask) 0#64 slow fast := by
  refine { alike with within := ?_, taken := ?_, long := ?_ }
  · intro j isSet
    simp at isSet
  · intro j isSet
    simp at isSet
  · intro j isSet _
    rw [getLsbD_xor] at isSet
    cases isTaken : vniMask.getLsbD j with
    | true =>
      rw [isTaken, alike.within j isTaken] at isSet
      cases isSet
    | false =>
      rw [isTaken, Bool.xor_false] at isSet
      exact alike.long j isSet isTaken

/-- The two loops over the ports. -/
theorem decapsulateFrom_alike (fromSide : Side) (eths hdrs : Nat → Nat) (ports : List Nat)
    (pktsMask : BitVec 64) :
    Lockstep (Alike pktsMask 0#64)
      (decapsulateFrom brick fromSide eths hdrs ports pktsMask : VtepM ι version Int)
      (decapsulateSimpleFrom brick fromSide eths hdrs ports pktsMask)
      (fun _ => SameEffects) SameEffects := by
  induction ports generalizing pktsMask with
  | nil => exact Lockstep.pure (fun _ _ alike => alike.effects)
  | cons i rest ih =>
    unfold decapsulateFrom decapsulateSimpleFrom
    by_cases nothing : pktsMask = 0#64
    · rw [if_pos nothing, if_pos nothing]
      exact Lockstep.pure (fun _ _ alike => alike.effects)
    rw [if_neg nothing, if_neg nothing]
    refine Lockstep.bind (fixIfDead_shared alike_sharesTables i) (fun ret => ?_)
    by_cases failed : ret < 0
    · rw [if_pos failed, if_pos failed]
      exact Lockstep.pure (fun _ _ alike => alike.effects)
    rw [if_neg failed, if_neg failed]
    refine Lockstep.bind (checkVniPkts_alike hdrs i (lowBits_nodup pktsMask)
        (fun j member => ⟨mem_lowBits.mp member, by simp⟩)) (fun vniMask => ?_)
    by_cases none : vniMask = 0#64
    · subst none
      rw [if_pos rfl, if_pos rfl]
      exact ih pktsMask
    rw [if_neg none, if_neg none]
    refine Lockstep.of_start (fun slow fast alike => ?_)
    have allHitted : hittedMask i vniMask slow = .ok vniMask slow := by
      show (if slow.state.noInnermacCheck then pure vniMask else _ : VtepM ι version _) slow = _
      rw [if_pos alike.unchecked]
      rfl
    refine Lockstep.alone allHitted ?_
    rw [if_neg none]
    refine Lockstep.bind ((deliverOn_alike brick fromSide eths hdrs i).startingAt alike)
      (fun sent => ?_)
    refine Lockstep.of_start (fun slow fast alike => ?_)
    have keptAll : freeOutPkts vniMask slow = .ok () slow := by
      show EStateM.Result.ok () (if slow.state.noCopy then slow else _) = _
      rw [if_pos alike.noCopy]
    refine Lockstep.alone keptAll ?_
    by_cases refused : sent < 0
    · rw [if_pos refused, if_pos refused]
      exact (Lockstep.pure (fun _ _ alike => alike.effects)).startingAt alike
    · rw [if_neg refused, if_neg refused]
      exact (ih (pktsMask ^^^ vniMask)).startingAt alike.next

end Loops

/-- Classifying a packet leaves its lengths alone. -/
theorem longEnough_classifyPkt (udpDstPortBe : BitVec 16) (pkt : Mbuf) :
    LongEnough version (classifyPkt version udpDstPortBe pkt).1 ↔ LongEnough version pkt := by
  unfold classifyPkt
  dsimp only
  split
  · rfl
  split
  · rfl
  split
  · rfl
  · rfl

/--
Two runs end the same way: both return one code or both stop for one reason,
after the same calls and with the same ports.
-/
structure SameOutcome (slow fast : EStateM.Result VtepStop (VtepWorld ι version) Int) : Prop where
  ends : EndAlike (fun _ => SameEffects) SameEffects slow fast

/--
On packets that are long enough for their headers, `decapsulate` with both
optimizations does what `decapsulate_simple` does, whatever the allocator and
the neighbours answer.
-/
theorem decapsulate_agrees_simple (brick : Brick ι) (fromSide : Side) (pktsMask : BitVec 64)
    (world : VtepWorld ι version) {flags : BitVec 32} (noCopy : flags.getLsbD 0 = true)
    (unchecked : flags.getLsbD 1 = true)
    (long : ∀ j, pktsMask.getLsbD j = true → LongEnough version (world.pkts j)) :
    SameOutcome (decapsulate brick fromSide pktsMask
        { world with state := { world.state with flags := flags } })
      (decapsulateSimple brick fromSide pktsMask world) := by
  let slow : VtepWorld ι version := { world with state := { world.state with flags := flags } }
  obtain ⟨accepted, isAccepted, ranSlow⟩ :=
    classified_run brick fromSide pktsMask (decapsulateFrom brick fromSide) slow
  obtain ⟨accepted', isAccepted', ranFast⟩ :=
    classified_run brick fromSide pktsMask (decapsulateSimpleFrom brick fromSide) world
  have same : accepted' = accepted := eq_of_lowBits_eq (isAccepted'.trans isAccepted.symm)
  unfold decapsulate decapsulateSimple
  rw [ranSlow, ranFast, same]
  have stillLong : ∀ j, accepted.getLsbD j = true → LongEnough version
          (classifiedPkts version world.state.udpDstPortBe world.pkts (lowBits pktsMask) j) := by
    intro j isSet
    rw [← mem_lowBits, isAccepted] at isSet
    have member := mem_of_mem_filter isSet
    unfold classifiedPkts
    rw [if_pos member, longEnough_classifyPkt]
    exact long j (mem_lowBits.mp member)
  refine ⟨decapsulateFrom_alike brick fromSide _ _ _ accepted _ _ ?_⟩
  exact
    { noCopy := noCopy
      unchecked := unchecked
      ports := rfl
      tick := rfl
      pkts := rfl
      malloc := rfl
      answers := rfl
      errors := rfl
      errp := rfl
      deliveries := List.forall₂_same.mpr (fun _ _ => ⟨rfl, fun _ _ => rfl⟩)
      within := fun j isSet => by simp at isSet
      taken := fun j isSet => by simp at isSet
      long := fun j isSet _ => stillLong j isSet }

/-- A burst of one VXLAN packet on the output side. -/
def receivingWorld : VtepWorld Bool .v4 :=
  attachedVtep.world calmSurroundings (fun _ => vniOneVxlan)

/-- A packet that both loops hand to the port of its VNI. -/
theorem decapsulate_agrees_simple_vni_one :
    LongEnough .v4 vniOneVxlan ∧ SameOutcome (decapsulate (vtepHubRing.brick false) .west 1#64
          { receivingWorld with state := { receivingWorld.state with flags := 3#32 } })
        (decapsulateSimple (vtepHubRing.brick false) .west 1#64 receivingWorld) ∧
      (finalState (decapsulateSimple (vtepHubRing.brick false) .west 1#64
          receivingWorld)).deliveries.length = 1 := by
  have long : LongEnough .v4 vniOneVxlan := by
    unfold LongEnough
    decide
  exact ⟨long, decapsulate_agrees_simple (vtepHubRing.brick false) .west 1#64 receivingWorld
      (by decide) (by decide) (fun _ _ => long), by decide +kernel⟩

end PacketGraph
