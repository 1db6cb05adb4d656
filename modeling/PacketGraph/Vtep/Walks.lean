import PacketGraph.Vtep.Frame

namespace PacketGraph

open BitScan Effects

/-!
# What a burst keeps, from what its steps keep

The loops of both directions are walked once.  A property that the elementary
steps of a burst keep is kept by the whole burst, and if a step stops so does
the burst.
-/

variable {ι : Type} {version : IpVersion} {stop : VtepStop → VtepWorld ι version → Prop}

variable {property : VtepWorld ι version → Prop}

/-- A call keeps what the call of its delivery keeps. -/
theorem burstTo_keeps {call : Option (Delivery ι)}
    (calls :
      ∀ delivery world, call = some delivery → property world →
        property (world.called delivery)) :
    Keeps property stop (burstTo call : VtepM ι version Int) := by
  cases call with
  | none => exact Keeps.pure _
  | some delivery =>
    refine Keeps.read (fun _ _ => ?_)
    exact Keeps.bind (Keeps.modify (fun world holds => calls delivery world rfl holds))
      (fun _ => Keeps.pure _)

/-- Forwarding to some edges keeps what each call keeps. -/
theorem forwardEdges_keeps {brick : Brick ι} {side fromSide : Side} {pkts : Nat → Mbuf}
    {pktsMask : BitVec 64}
    (calls :
      ∀ index, Keeps property stop (burstTo ((edgeSend brick side index fromSide pktsMask).map
              (fun send => { send with pkts := pkts })) :
            VtepM ι version Int)) (indices : List Nat) :
    Keeps property stop
      (forwardEdges brick side fromSide pkts pktsMask indices : VtepM ι version Int) := by
  induction indices with
  | nil => exact Keeps.pure _
  | cons index rest ih =>
    refine Keeps.bind (calls index) (fun ret => ?_)
    split
    · exact Keeps.pure _
    · exact ih

section Decapsulation

/--
What the steps of the loop over the ports keep: `holds` before a port was
fixed, and `fixed` of the port once it was.
-/
structure DecapRule (brick : Brick ι) (fromSide : Side) (holds : VtepWorld ι version → Prop)
    (fixed : Nat → VtepWorld ι version → Prop) (stop : VtepStop → VtepWorld ι version → Prop)
    : Prop where
  blind : PacketBlind holds
  fixedBlind : ∀ i, CloneBlind (fixed i)
  bare : ∀ i world, fixed i world → holds world
  fixes : ∀ i, Spec holds (fixIfDead i)
        (fun ret world => holds world ∧ (0 ≤ ret → fixed i world)) stop
  hits : ∀ i vniMask, Keeps (fixed i) stop (hittedMask i vniMask)
  learns : ∀ array eths hdrs i places,
      Keeps (fixed i) stop (addDstInerMacs array eths hdrs i places)
  calls : ∀ i pkts pktsMask, Keeps (fixed i) stop (burstTo
          (portCall brick (pgFlipSide fromSide) fromSide i pkts pktsMask))

variable {brick : Brick ι} {fromSide : Side} {holds : VtepWorld ι version → Prop}
  {fixed : Nat → VtepWorld ι version → Prop} (rule : DecapRule brick fromSide holds fixed stop)

include rule

/-- Delivering the packets of a port. -/
theorem DecapRule.deliverOn (array : PktArray) (eths hdrs : Nat → Nat) (i : Nat)
    (pktsMask : BitVec 64) :
    Keeps (fixed i) stop (deliverOn brick fromSide array eths hdrs i pktsMask) := by
  refine Keeps.bind (rule.learns _ _ _ _ _) (fun _ => ?_)
  refine Keeps.bind (restoreMetadata_keeps (rule.fixedBlind i).packetBlind _ _) (fun _ => ?_)
  exact Keeps.read (fun _ _ => rule.calls _ _ _)

/-- Go on with a port once it was fixed. -/
theorem DecapRule.afterFix {i : Nat} {rest : VtepM ι version Int}
    (body : Spec (fixed i) rest (fun _ => holds) stop) :
    Keeps holds stop (do
        let fixed ← fixIfDead i
        if fixed < 0 then pure (-1) else rest) := by
  refine Spec.bind (rule.fixes i) (fun fixed => ?_)
  split
  · exact Spec.pure (fun _ post => post.1)
  · exact body.weaken (fun _ post => post.2 (by omega))
      (fun _ _ post => post) (fun _ _ stopped => stopped)

theorem DecapRule.next {program : VtepM ι version Int} (later : Keeps holds stop program)
    (i : Nat) : Spec (fixed i) program (fun _ => holds) stop :=
  later.weaken (rule.bare i) (fun _ _ post => post) (fun _ _ stopped => stopped)

section

variable (eths hdrs : Nat → Nat) (ports : List Nat) (pktsMask : BitVec 64)

/-- The rounds over the ports that clone packets. -/
theorem DecapRule.decapsulateFrom
    : Keeps holds stop (decapsulateFrom brick fromSide eths hdrs ports pktsMask) := by
  induction ports generalizing pktsMask with
  | nil => exact Keeps.pure _
  | cons i rest ih =>
    unfold PacketGraph.decapsulateFrom
    split
    · exact Keeps.pure _
    refine rule.afterFix ?_
    have blind := rule.fixedBlind i
    refine Spec.bind (checkAndCloneVniPkts_keeps blind _ _ _ _) (fun vniMask => ?_)
    split
    · exact rule.next (ih _) i
    refine Spec.bind (rule.hits _ _) (fun hitted => ?_)
    split
    · exact Spec.bind (freeOutPkts_keeps blind _) (fun _ => rule.next (ih _) i)
    refine Spec.bind (rule.deliverOn _ _ _ _ _) (fun ret => ?_)
    refine Spec.bind (freeOutPkts_keeps blind _) (fun _ => ?_)
    split
    · exact Spec.pure (rule.bare i)
    · exact rule.next (ih _) i

/-- The rounds over the ports on the fast path. -/
theorem DecapRule.decapsulateSimpleFrom :
    Keeps holds stop (decapsulateSimpleFrom brick fromSide eths hdrs ports pktsMask) := by
  induction ports generalizing pktsMask with
  | nil => exact Keeps.pure _
  | cons i rest ih =>
    unfold PacketGraph.decapsulateSimpleFrom
    split
    · exact Keeps.pure _
    refine rule.afterFix ?_
    refine Spec.bind (checkVniPkts_keeps (rule.fixedBlind i).packetBlind
      _ _ _ _) (fun vniMask => ?_)
    split
    · exact rule.next (ih _) i
    refine Spec.bind (rule.deliverOn _ _ _ _ _) (fun ret => ?_)
    split
    · exact Spec.pure (rule.bare i)
    · exact rule.next (ih _) i

end

/-- The body of `from_vtep` before its exception environment is left. -/
theorem DecapRule.decapsulates (pktsMask : BitVec 64) (flagsSeen : BitVec 32) :
    Keeps holds stop (if flagsSeen = pgVtepAllOpti then
        decapsulateSimple brick fromSide pktsMask
      else
        decapsulate brick fromSide pktsMask) := by
  split
  · refine Keeps.read (fun _ _ => ?_)
    exact Keeps.bind (classifyPkts_keeps rule.blind _ _ _)
      (fun _ => rule.decapsulateSimpleFrom _ _ _ _)
  · refine Keeps.read (fun _ _ => ?_)
    exact Keeps.bind (classifyPkts_keeps rule.blind _ _ _) (fun _ => rule.decapsulateFrom _ _ _ _)

end Decapsulation

section Encapsulation

/-- What the steps that write the outer headers of a packet keep. -/
structure PrependRule (i : Nat) (holds : VtepWorld ι version → Prop)
    (stop : VtepStop → VtepWorld ι version → Prop) : Prop where
  blind : PacketBlind holds
  touches : ∀ mac, Keeps holds stop (useEntry i mac)
  learns : ∀ inner, Keeps holds stop (learnSource i inner)

variable {i : Nat} {holds : VtepWorld ι version → Prop}

theorem PrependRule.selectDestination (rule : PrependRule i holds stop)
    (j base : Nat) (inner : Mbuf) (entry : Option (Mac × DestAddresses version)) (len : BitVec 16) :
    Keeps holds stop (selectDestination i j base inner entry len) := by
  cases entry with
  | some known => exact Keeps.bind (rule.touches _) (fun _ => writeOuter_keeps rule.blind _ _ _ _ _)
  | none =>
    refine Keeps.bind (rule.learns _) (fun _ => ?_)
    exact Keeps.read (fun _ _ => writeOuter_keeps rule.blind _ _ _ _ _)

/-- `vtep_header_prepend` keeps what its learning keeps. -/
theorem PrependRule.vtepHeaderPrepend (rule : PrependRule i holds stop)
    (j : Nat) (entry : Option (Mac × DestAddresses version)) :
    Keeps holds stop (vtepHeaderPrepend i j entry) := by
  refine Keeps.read (fun _ _ => ?_)
  dsimp only
  split
  · exact Keeps.bind (setError_keeps rule.blind _) (fun _ => Keeps.pure _)
  · refine Keeps.bind (writeTmp_keeps rule.blind _ _) (fun _ => ?_)
    refine Keeps.bind (writeBytes_keeps rule.blind _ _ _) (fun _ => ?_)
    refine Keeps.bind (rule.selectDestination _ _ _ _ _) (fun _ => ?_)
    refine Keeps.bind (writeUdp_keeps rule.blind _ _ _ _) (fun _ => Keeps.read (fun _ _ => ?_))
    exact Keeps.bind (writeTmp_keeps rule.blind _ _) (fun _ => Keeps.pure _)

/-- What the steps of the loop over the packets of a port keep. -/
structure EncapRule (i : Nat) (holds : VtepWorld ι version → Prop)
    (stop : VtepStop → VtepWorld ι version → Prop) : Prop
    extends PrependRule i holds stop where
  cloneBlind : CloneBlind holds
  finds : ∀ j, Keeps holds stop (destinationOf i j)

variable (rule : EncapRule i holds stop)

include rule

/-- The loop of `vtep_encapsulate` over some packets. -/
theorem EncapRule.vtepEncapsulate (places : List Nat) :
    Keeps holds stop (vtepEncapsulate i places) := by
  induction places with
  | nil => exact Keeps.pure _
  | cons j rest ih =>
    refine Keeps.bind (rule.finds _) (fun entry => ?_)
    refine Keeps.bind (clonePkt_keeps rule.cloneBlind _) (fun cloned => ?_)
    cases cloned with
    | none => exact Keeps.pure _
    | some tmp =>
      refine Keeps.bind (writeTmp_keeps rule.blind _ _) (fun _ => ?_)
      refine Keeps.bind (rule.vtepHeaderPrepend _ _) (fun ret => ?_)
      split
      · exact Keeps.bind (freeTmp_keeps rule.cloneBlind _) (fun _ => Keeps.pure _)
      · refine Keeps.read (fun _ _ => ?_)
        refine Keeps.bind (pointTo_keeps rule.cloneBlind _ _) (fun _ => ?_)
        exact Keeps.bind (writePkt_keeps rule.blind _ _ _) (fun _ => ih)

/-- The body of `to_vtep`, from how its port is fixed and whom it calls. -/
theorem EncapRule.encapsulateBurst
    {before : VtepWorld ι version → Prop} {brick : Brick ι} {fromSide : Side} {pktsMask : BitVec 64}
    (blind : CloneBlind before) (bare : ∀ world, holds world → before world)
    (fixes : Spec before (fixIfDead i) (fun ret world => before world ∧ (0 ≤ ret → pgIsMulticastIp
        (world.state.ports i).multicastIp = true → holds world)) stop)
    (calls : ∀ pkts, Keeps before stop
          (sideForward brick (pgFlipSide fromSide) fromSide pkts pktsMask)) :
    Keeps before stop (encapsulateBurst brick fromSide i pktsMask) := by
  refine Spec.bind fixes (fun fixed => ?_)
  split
  · exact Spec.pure (fun _ post => post.1)
  refine Spec.read (fun seen post => ?_)
  split
  · exact Spec.pure (fun _ same => same ▸ post.1)
  rename_i attached
  have opened := post.2 (by omega) (not_not.mp attached)
  refine Spec.bind ((rule.vtepEncapsulate _).startingAt opened) (fun ret => ?_)
  split
  · exact Spec.pure bare
  refine Spec.weaken (Keeps.read (fun _ _ => ?_)) bare
    (fun _ _ after => after) (fun _ _ stopped => stopped)
  refine Keeps.bind (calls _) (fun _ => ?_)
  exact Keeps.bind (freeOutPkts_keeps blind _) (fun _ => Keeps.pure _)

end Encapsulation

end PacketGraph
