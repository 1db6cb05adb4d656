import PacketGraph.Vtep.Safety
import PacketGraph.Brick.Destroy

namespace PacketGraph

open BitMap BitScan Bytes Effects Function Option TransitionSystem

/-!
# Attaching a VNI, taking it back, and the errors on the way

`pg_vtep_add_vni` checks its arguments, fills the port, joins the multicast
group of the VNI and adds the broadcast address to the port.  Its checks report
an error and leave the port alone.  Nothing looks at the error of the join
message: the VNI is attached, and the call returns 0 with an error set.

A vtep that loses the link of a port with a VNI leaves the multicast group of
the port.  When the leave message is not sent, the vtep hands the error on: the
link stays, and so does a brick that was to be destroyed.
-/

variable {ι : Type} {version : IpVersion}

section Joining

/-- No brick that a message is handed to along some edges sets an error. -/
def SentQuietly (brick : Brick ι) (side fromSide : Side) :
    List Nat → Answers → (Nat → Option PgError) → Prop
  | [], _, _ => True
  | index :: rest, answers, errors =>
    match edgeSend brick side index fromSide 1#64 with
    | none => SentQuietly brick side fromSide rest answers errors
    | some _ =>
      errors 0 = none ∧ (0 ≤ answers 0 → SentQuietly brick side fromSide rest (answers.after 1)
            (fun call => errors (1 + call)))

/-- A forward returns, and leaves an error exactly if it meets one. -/
theorem forwardEdges_quiet_iff (brick : Brick ι) (side fromSide : Side) (pkts : Nat → Mbuf)
    (indices : List Nat) (world : VtepWorld ι version) :
    ∃ ret left, forwardEdges brick side fromSide pkts 1#64 indices world = .ok ret left ∧
        left.state = world.state ∧
        left.malloc = world.malloc ∧
        (left.errp = none ↔ world.errp = none ∧
            SentQuietly brick side fromSide indices world.answers world.errors) := by
  induction indices generalizing world with
  | nil => exact ⟨0, world, rfl, rfl, rfl, (and_iff_left trivial).symm⟩
  | cons index rest ih =>
    unfold forwardEdges SentQuietly
    cases isSend : edgeSend brick side index fromSide 1#64 with
    | none =>
      rw [map_none, bind_of_ok (show burstTo none world = _ from rfl)]
      exact ih world
    | some send =>
      rw [map_some, bind_of_ok (show burstTo _ world = _ from rfl)]
      by_cases refused : world.answers 0 < 0
      · rw [if_pos refused]
        refine ⟨-1, _, rfl, rfl, rfl, ?_⟩
        cases isError : world.errors 0 <;> simp [VtepWorld.called, isError, refused]
      · rw [if_neg refused]
        obtain ⟨ret, left, forwards, sameState, sameMalloc, quiet⟩ :=
          ih (world.called { send with pkts := pkts })
        refine ⟨ret, left, forwards, sameState, sameMalloc, quiet.trans ?_⟩
        cases isError : world.errors 0 <;> simp [VtepWorld.called, isError, not_lt.mp refused]

/-- A membership report gets a packet with room for it and meets no error. -/
def ReportSent (brick : Brick ι) (world : VtepWorld ι version) (multicastIp : Ip version)
    (action : Operation) : Prop :=
  (∃ pkt, world.allocs 0 = some pkt ∧ pkt.dataOff + pkt.dataLen +
          (reportBytes world.state multicastIp action).length ≤ pkt.bufLen) ∧
    SentQuietly brick world.state.output (pgFlipSide world.state.output)
      (List.range (brick.sides world.state.output).nb) world.answers world.errors

/-- A report returns without an error exactly if it is sent. -/
theorem multicastInternal_sent_iff {brick : Brick ι} {start : VtepWorld ι version}
    {multicastIp : Ip version} (multicast : pgIsMulticastIp multicastIp = true)
    (noError : start.errp = none) (action : Operation) :
    Spec (fun world => world = start)
      (multicastInternal brick multicastIp action : VtepM ι version Unit)
      (fun _ left => left.state = start.state ∧ left.malloc = start.malloc ∧
          (left.errp = none ↔ ReportSent brick start multicastIp action))
      (fun _ _ => ¬ ReportSent brick start multicastIp action) := by
  refine .read (fun seen isSeen => ?_)
  subst isSeen
  rw [if_neg (not_not.mpr multicast)]
  let drawn : VtepWorld ι version := { seen with allocs := fun call => seen.allocs (1 + call) }
  have draws : Spec (fun world => world = seen) (modify (fun world =>
          { world with allocs := fun call => world.allocs (1 + call) }) :
          VtepM ι version PUnit)
        (fun _ world => world = drawn)
        (fun _ _ => ¬ ReportSent brick seen multicastIp action) := by
    refine .modify ?_
    rintro _ rfl
    rfl
  refine .bind draws (fun _ => ?_)
  cases allocated : seen.allocs 0 with
  | none =>
    have notSent : ¬ ReportSent brick seen multicastIp action := by
      rintro ⟨⟨pkt, isPkt, _⟩, _⟩
      rw [allocated] at isPkt
      cases isPkt
    refine .modify ?_
    rintro _ rfl
    exact ⟨rfl, rfl, iff_of_false (some_ne_none _) notSent⟩
  | some pkt =>
    have sent_iff : ReportSent brick seen multicastIp action ↔ pkt.dataOff + pkt.dataLen +
              (reportBytes seen.state multicastIp action).length ≤ pkt.bufLen ∧
          SentQuietly brick seen.state.output (pgFlipSide seen.state.output)
            (List.range (brick.sides seen.state.output).nb) seen.answers
            seen.errors := by
      unfold ReportSent
      simp only [allocated, some.injEq, exists_eq_left']
    dsimp only
    rw [sent_iff]
    unfold rtePktmbufAppend
    by_cases noRoom : pkt.bufLen < pkt.dataOff + pkt.dataLen +
            (reportBytes seen.state multicastIp action).length
    · rw [if_pos noRoom]
      have notSent (quiet : Prop) : ¬ (pkt.dataOff + pkt.dataLen +
              (reportBytes seen.state multicastIp action).length ≤ pkt.bufLen ∧ quiet) :=
        fun sent => absurd sent.1 (not_le.mpr noRoom)
      cases version with
      | v4 =>
        refine .modify ?_
        rintro _ rfl
        exact ⟨rfl, rfl, iff_of_false (some_ne_none _) (notSent _)⟩
      | v6 => exact .throw (fun _ _ => notSent _)
    · rw [if_neg noRoom]
      rintro world rfl
      obtain ⟨ret, left, forwards, sameState, sameMalloc, quiet⟩ :=
        forwardEdges_quiet_iff brick seen.state.output (pgFlipSide seen.state.output) (fun _ =>
            { pkt with
              buf :=
                store pkt.buf (pkt.dataOff + pkt.dataLen)
                  (reportBytes seen.state multicastIp action)
              dataLen :=
                pkt.dataLen + (reportBytes seen.state multicastIp action).length
              pktLen :=
                pkt.pktLen + (reportBytes seen.state multicastIp action).length })
          (List.range (brick.sides seen.state.output).nb) drawn
      dsimp only
      unfold sideForward
      rw [bind_of_ok forwards]
      refine ⟨sameState, sameMalloc, quiet.trans ?_⟩
      rw [and_iff_right (show drawn.errp = none from noError), and_iff_right (not_lt.mp noRoom)]

end Joining

section Filling

variable {V : Type}

/-- A table is made, or its allocation failed. -/
theorem assertTable_spec (which : PortTable version V) (i : Nat) (start : VtepWorld ι version) :
    Spec (fun world => world = start) (assertTable which i : VtepM ι version Unit) (fun _ left =>
        start.malloc 0 = true ∧ left = start.withTable (start.malloc.after 1) which i
              (.live (MacTable.zero V)))
      (fun _ _ => start.malloc 0 = false) := by
  have made := initTable_run which i start
  unfold pgMacTableInit at made
  cases granted : start.malloc 0 with
  | true =>
    rw [granted] at made
    exact Spec.after_ok made (Spec.pure (fun _ same => ⟨rfl, same⟩))
  | false =>
    rw [granted] at made
    exact Spec.after_ok made (Spec.throw (fun _ _ => rfl))

/-- A port whose VNI and group were written and whose tables were made. -/
def VtepPort.filled (port : VtepPort version) (vni : BitVec 32) (multicastIp : Ip version) :
    VtepPort version :=
  { port with
    vni := vniField vni
    multicastIp := multicastIp
    macToDst := .live (MacTable.zero (DestAddresses version))
    knownMac := .live (MacTable.zero Unit) }

/-- The world after a port was filled. -/
def VtepWorld.filled (world : VtepWorld ι version) (i : Nat) (vni : BitVec 32)
    (multicastIp : Ip version) : VtepWorld ι version :=
  { world with malloc := (world.malloc.after 1).after 1 }.withPort i
    ((world.state.ports i).filled vni multicastIp)

theorem granted_twice {malloc : Malloc} (first : malloc 0 = true) (second : malloc 1 = true) :
    ∀ call < 2, malloc call = true
  | 0, _ => first
  | 1, _ => second

/-- Filling a port takes two allocations. -/
theorem fillPort_spec (i : Nat) (vni : BitVec 32) (multicastIp : Ip version)
    (start : VtepWorld ι version) :
    Spec (fun world => world = start) (fillPort i vni multicastIp : VtepM ι version Unit)
      (fun _ left => (∀ call < 2, start.malloc call = true) ∧ left = start.filled i vni multicastIp)
      (fun _ _ => ∃ call < 2, start.malloc call = false) := by
  let named :=
    start.withPort i { start.state.ports i with vni := vniField vni, multicastIp := multicastIp }
  have names : modifyPort i (fun port =>
            { port with vni := vniField vni, multicastIp := multicastIp })
          start =
        .ok () named :=
    rfl
  refine Spec.after_ok names ?_
  refine .bind ((assertTable_spec macToDst i named).weaken
    (fun _ same => same) (fun _ _ made => made)
    (fun _ _ failed => ⟨0, Nat.zero_lt_two, failed⟩)) (fun _ => ?_)
  refine .of_start (fun middle isMiddle => ?_)
  obtain ⟨first, rfl⟩ := isMiddle
  refine (assertTable_spec knownMac i _).weaken (fun _ same => same) ?_
    (fun _ _ failed => ⟨1, Nat.one_lt_two, failed⟩)
  rintro _ left ⟨second, rfl⟩
  refine ⟨granted_twice first second, ?_⟩
  simp only [named, VtepWorld.withTable, VtepWorld.withPort,
    VtepWorld.filled, update_idem, update_self]
  rfl

/-- The broadcast address is added to a new table with two allocations. -/
theorem doAddMac_spec {i : Nat} {start : VtepWorld ι version}
    (isNew : (start.state.ports i).knownMac = .live (MacTable.zero Unit)) (mac : BitVec 48) :
    Spec (fun world => world = start) (doAddMac i mac : VtepM ι version Unit) (fun _ left =>
        (∀ call < 2, start.malloc call = true) ∧ left.errp = start.errp)
      (fun _ _ => ∃ call < 2, start.malloc call = false) := by
  rintro world rfl
  unfold doAddMac
  have isSlot : knownMac.slot (world.state.ports i) = .live (MacTable.zero Unit) := isNew
  have unset (part1 : Nat) : pgMacTableIsSet (MacTable.zero Unit).mask part1 = false := by
    simp [testBit, MacTable.zero]
  rw [setInTable_run, isSlot]
  dsimp only
  unfold macTableSet
  dsimp only
  rw [unset, if_neg Bool.false_ne_true]
  cases first : world.malloc 0 with
  | false =>
    rw [if_neg Bool.false_ne_true]
    exact ⟨0, Nat.zero_lt_two, first⟩
  | true =>
    cases second : world.malloc 1 with
    | false =>
      rw [if_pos rfl, if_neg Bool.false_ne_true]
      exact ⟨1, Nat.one_lt_two, second⟩
    | true =>
      rw [if_pos rfl, if_pos rfl]
      unfold storeEntry
      simp only [update_self]
      exact ⟨granted_twice first second, rfl⟩

end Filling

section Attaching

variable [DecidableEq ι]

/-- The checks of `pg_vtep_add_vni` let a VNI through to a port. -/
structure TakesVni (brick : Brick ι) (state : VtepState version) (neighbor : Option ι)
    (vni : BitVec 32) (multicastIp : Ip version) (i : Nat) : Prop where
  linked : ∃ next, neighbor = some next ∧
        edgeTo (brick.sides (pgFlipSide state.output)) next = some i
  valid : isVniValid vni = true
  multicast : pgIsMulticastIp multicastIp = true
  noVni : (state.ports i).vni = 0#32
  noGroup : pgIsMulticastIp (state.ports i).multicastIp = false

/-- What is left to do after the checks. -/
def attachVni (brick : Brick ι) (i : Nat) (vni : BitVec 32) (multicastIp : Ip version) :
    VtepM ι version Int := do
  fillPort i vni multicastIp
  multicastInternal brick multicastIp .subscribe
  doAddMac i broadcastMac
  pure 0

variable {brick : Brick ι} {multicastIp : Ip version}

variable {neighbor : Option ι} {vni : BitVec 32} {world : VtepWorld ι version}

theorem pgVtepAddVni_of_taken {i : Nat}
    (takes : TakesVni brick world.state neighbor vni multicastIp i) :
    pgVtepAddVni brick neighbor vni multicastIp world =
      attachVni brick i vni multicastIp world := by
  obtain ⟨next, rfl, found⟩ := takes.linked
  have adds : doAddVni brick i vni multicastIp world = (do
          fillPort i vni multicastIp
          multicastInternal brick multicastIp .subscribe
          pure 0 : VtepM ι version Int) world := by
    show (if (world.state.ports i).vni ≠ 0#32 then _ else _ : VtepM ι version Int) world = _
    rw [if_neg (not_not.mpr takes.noVni), if_neg (Bool.eq_false_iff.mp takes.noGroup)]
  show (if ¬ isVniValid vni then _ else _ : VtepM ι version Int) world = _
  rw [if_neg (not_not.mpr takes.valid), if_neg (not_not.mpr takes.multicast), found]
  unfold attachVni
  dsimp only
  cases filled : fillPort i vni multicastIp world with
  | error reason left =>
    rw [bind_of_error filled] at adds ⊢
    rw [bind_of_error adds]
  | ok _ left =>
    rw [bind_of_ok filled] at adds ⊢
    cases reported : multicastInternal brick multicastIp .subscribe left with
    | error reason last =>
      rw [bind_of_error reported] at adds ⊢
      rw [bind_of_error adds]
    | ok _ last =>
      rw [bind_of_ok reported] at adds ⊢
      rw [bind_of_ok adds]
      rfl

/-- A refused VNI leaves an error and nothing else. -/
theorem pgVtepAddVni_of_refused
    (refused : ∀ i, ¬ TakesVni brick world.state neighbor vni multicastIp i) :
    ∃ failure, pgVtepAddVni brick neighbor vni multicastIp world =
        .ok (-1) { world with errp := some failure } := by
  cases neighbor with
  | none => exact ⟨_, rfl⟩
  | some next =>
    show ∃ failure, (if ¬ isVniValid vni then _ else _ : VtepM ι version Int) world = _
    by_cases valid : isVniValid vni = true
    · rw [if_neg (not_not.mpr valid)]
      by_cases multicast : pgIsMulticastIp multicastIp = true
      · rw [if_neg (not_not.mpr multicast)]
        cases found : edgeTo (brick.sides (pgFlipSide world.state.output)) next with
        | none => exact ⟨_, rfl⟩
        | some i =>
          have taken : (world.state.ports i).vni ≠ 0#32 ∨
                pgIsMulticastIp (world.state.ports i).multicastIp =
                  true := by
            by_contra free
            obtain ⟨noVni, noGroup⟩ := not_or.mp free
            exact refused i ⟨⟨next, rfl, found⟩, valid, multicast,
              not_not.mp noVni, Bool.eq_false_iff.mpr noGroup⟩
          have adds : ∃ failure, doAddVni brick i vni multicastIp world =
                  .ok (-1) { world with errp := some failure } := by
            show ∃ failure, (if (world.state.ports i).vni ≠ 0#32 then _ else _ :
                VtepM ι version Int) world = _
            by_cases hasVni : (world.state.ports i).vni ≠ 0#32
            · rw [if_pos hasVni]
              exact ⟨_, rfl⟩
            · rw [if_neg hasVni, if_pos (taken.resolve_left hasVni)]
              exact ⟨_, rfl⟩
          obtain ⟨failure, adds⟩ := adds
          dsimp only
          rw [bind_of_ok adds]
          exact ⟨failure, rfl⟩
      · rw [if_pos multicast]
        exact ⟨_, rfl⟩
    · rw [if_pos valid]
      exact ⟨_, rfl⟩

omit [DecidableEq ι] in
/-- What is left to do returns if there is memory and the report is sent. -/
theorem attachVni_spec {start : VtepWorld ι version}
    (multicast : pgIsMulticastIp multicastIp = true) (noError : start.errp = none) (i : Nat)
    (vni : BitVec 32) :
    Spec (fun world => world = start) (attachVni brick i vni multicastIp : VtepM ι version Int)
      (fun ret left => ret = 0 ∧ (∀ call < 4, start.malloc call = true) ∧
          (left.errp = none ↔ ReportSent brick start multicastIp .subscribe))
      (fun _ _ => ¬ ((∀ call < 4, start.malloc call = true) ∧
          ReportSent brick start multicastIp .subscribe)) := by
  have starved (offset : Nat) (small : offset ≤ 2)
      (failed : ∃ call < 2, start.malloc (offset + call) = false) :
      ¬ ((∀ call < 4, start.malloc call = true) ∧
        ReportSent brick start multicastIp .subscribe) := by
    rintro ⟨granted, _⟩
    obtain ⟨call, below, isFalse⟩ := failed
    rw [granted (offset + call) (by omega)] at isFalse
    cases isFalse
  refine .bind ((fillPort_spec i vni multicastIp start).weaken
    (fun _ same => same) (fun _ _ filled => filled)
    (fun _ _ failed => starved 0 (by omega) (by simpa using failed))) (fun _ => ?_)
  refine .of_start (fun middle isMiddle => ?_)
  obtain ⟨tables, rfl⟩ := isMiddle
  refine .bind ((multicastInternal_sent_iff multicast
    (show (start.filled i vni multicastIp).errp = none from noError) .subscribe).weaken
    (fun _ same => same) (fun _ _ sent => sent)
    (fun _ _ notSent both => notSent both.2)) (fun _ => ?_)
  refine .of_start (fun reported isReported => ?_)
  obtain ⟨sameState, sameMalloc, sent⟩ := isReported
  have isNew : (reported.state.ports i).knownMac = .live (MacTable.zero Unit) := by
    rw [sameState]
    simp only [VtepWorld.filled, ports_withPort_self, VtepPort.filled]
  refine .bind ((doAddMac_spec isNew broadcastMac).weaken
    (fun _ same => same) (fun _ _ added => added) ?_) (fun _ => ?_)
  · rintro _ _ ⟨call, below, failed⟩
    rw [sameMalloc] at failed
    refine starved 2 (by omega) ⟨call, below, ?_⟩
    rw [← failed]
    show start.malloc (2 + call) = start.malloc (1 + (1 + call))
    rw [← Nat.add_assoc]
  · refine .pure ?_
    rintro left ⟨entry, sameError⟩
    rw [sameMalloc] at entry
    refine ⟨rfl, fun call below => ?_, ?_⟩
    · by_cases isTable : call < 2
      · exact tables call isTable
      · have granted : start.malloc (1 + (1 + (call - 2))) = true := entry (call - 2) (by omega)
        rwa [show 1 + (1 + (call - 2)) = call by omega] at granted
    · rw [sameError]
      exact sent

/--
`pg_vtep_add_vni` returns, with -1 exactly if it sets an error, and a call
that returns -1 leaves the ports as they were.
-/
def ReportsAndRollsBack (brick : Brick ι) (host : VtepHost version) (neighbor : Option ι)
    (vni : BitVec 32) (multicastIp : Ip version) (around : Surroundings) : Prop :=
  ∃ ret left, (VtepOp.addVni neighbor vni multicastIp).run brick host around = .ok ret left ∧
      (ret = -1 ↔ left.errp.isSome = true) ∧ (ret = -1 → left.state.ports = host.state.ports)

/--
`pg_vtep_add_vni` reports its errors and rolls back exactly if, whenever its
checks let the VNI through, there is memory for the tables of the port and the
membership report is sent without an error.
-/
theorem add_vni_reports_iff (brick : Brick ι) (host : VtepHost version) (neighbor : Option ι)
    (vni : BitVec 32) (multicastIp : Ip version) (around : Surroundings) :
    ReportsAndRollsBack brick host neighbor vni multicastIp around ↔
      ∀ i, TakesVni brick host.state neighbor vni multicastIp i →
        (∀ call < 4, around.malloc call = true) ∧
          ReportSent brick (host.world around (fun _ => Mbuf.zero)) multicastIp .subscribe := by
  let start : VtepWorld ι version := host.world around (fun _ => Mbuf.zero)
  have noError : start.errp = none := rfl
  show (∃ ret left, pgVtepAddVni brick neighbor vni multicastIp start = .ok ret left ∧ _ ∧ _) ↔ _
  by_cases taken : ∃ i, TakesVni brick start.state neighbor vni multicastIp i
  · obtain ⟨i, takes⟩ := taken
    have spec := @attachVni_spec _ _ brick _ start takes.multicast noError i vni
    rw [pgVtepAddVni_of_taken takes]
    constructor
    · rintro ⟨ret, left, ran, reports, _⟩ _ _
      obtain ⟨rfl, granted, sent⟩ := spec.returned rfl ran
      refine ⟨granted, sent.mp (not_isSome_iff_eq_none.mp ?_)⟩
      exact fun isSome => absurd (reports.mpr isSome) (by decide)
    · intro condition
      obtain ⟨granted, isSent⟩ := condition i takes
      cases ran : attachVni brick i vni multicastIp start with
      | ok ret left =>
        obtain ⟨rfl, _, sent⟩ := spec.returned rfl ran
        refine ⟨0, left, rfl, ?_, fun isError => absurd isError (by decide)⟩
        rw [sent.mpr isSent]
        exact iff_of_false (by decide) Bool.false_ne_true
      | error reason left => exact absurd ⟨granted, isSent⟩ (spec.stopped rfl ran)
  · have refused := not_exists.mp taken
    obtain ⟨failure, fails⟩ := pgVtepAddVni_of_refused refused
    exact iff_of_true ⟨-1, _, fails, iff_of_true rfl rfl, fun _ => rfl⟩
      (fun i takes => absurd takes (refused i))

end Attaching

/-- What a call returned, whether it set an error, and the VNI of port 0. -/
def attachAnswer (result : EStateM.Result VtepStop (VtepWorld Bool .v4) Int) :
    Option (Int × Bool × BitVec 32) :=
  match result with
  | .ok ret left => some (ret, left.errp.isSome, (left.state.ports 0).vni)
  | .error _ _ => none

/--
Attaching a VNI while no packet can be allocated sets an error and returns 0.
The port keeps the VNI, so that the same call fails when it is made again.
-/
theorem failed_join_returns_success :
    (vtepSystem (quietOps Bool)).Reachable vtepHubLinked ∧ vtepHubLinked.priv false =
        .own (calmHost (vtepInit .west 0#32 0#48 0#16 0#32)) ∧
      attachAnswer (attachVniOne.run (vtepHubLinked.brick false)
            (calmHost (vtepInit .west 0#32 0#48 0#16 0#32)) calmSurroundings) =
        some (0, true, vniField 1#32) ∧
      attachAnswer (attachVniOne.run (vtepHubLinked.brick false) attachedVtep calmSurroundings) =
        some (-1, true, vniField 1#32) ∧
      ¬ ReportsAndRollsBack (vtepHubLinked.brick false)
        (calmHost (vtepInit .west 0#32 0#48 0#16 0#32)) (some true) 1#32
        exampleGroup calmSurroundings := by
  have answer : attachAnswer (attachVniOne.run (vtepHubLinked.brick false)
            (calmHost (vtepInit .west 0#32 0#48 0#16 0#32)) calmSurroundings) =
        some (0, true, vniField 1#32) := by
    decide +kernel
  refine ⟨vtepHubLinked_reachable.of_guarded, rfl, answer, by decide +kernel, ?_⟩
  rintro ⟨ret, left, ran, reports, _⟩
  have ran : attachVniOne.run (vtepHubLinked.brick false)
          (calmHost (vtepInit .west 0#32 0#48 0#16 0#32)) calmSurroundings = .ok ret left :=
    ran
  rw [ran] at answer
  simp only [attachAnswer, some.injEq, Prod.mk.injEq] at answer
  have isError := reports.mpr answer.2.1
  rw [answer.1] at isError
  exact absurd isError (by decide)

section Leaving

/-- A vtep that cannot send its leave message keeps the port and sets an error. -/
theorem doRemoveVni_unsent {brick : Brick ι} {i : Nat} {start : VtepWorld ι version}
    (attached : (start.state.ports i).Attached) (noError : start.errp = none)
    (unsent : ¬ ReportSent brick start (start.state.ports i).multicastIp .unsubscribe) :
    Spec (fun world => world = start) (doRemoveVni brick i : VtepM ι version Unit)
      (fun _ left => left.state = start.state ∧ left.errp.isSome = true)
      (fun _ _ => True) := by
  refine .read (fun seen isSeen => ?_)
  subst isSeen
  have multicast : pgIsMulticastIp (seen.state.ports i).multicastIp = true := attached
  rw [if_neg (not_not.mpr multicast)]
  refine .bind ((multicastInternal_sent_iff multicast noError .unsubscribe).weaken
    (fun _ same => same) (fun _ _ post => post) (fun _ _ _ => trivial))
    (fun _ => .read (fun left post => ?_))
  have failed : left.errp.isSome = true :=
    isSome_iff_ne_none.mpr (fun isNone => unsent (post.2.2.mp isNone))
  rw [if_pos failed]
  exact .pure (fun _ same => same ▸ ⟨post.1, failed⟩)

end Leaving

local instance nonzeroThree : NeZero 3 := ⟨by decide⟩

/-- A program of three bricks: a vtep between an uplink and a hub. -/
def leaveConfig (which : Fin 3) : BrickConfig :=
  match which with
  | 0 => { name := "uplink", westMax := 1, eastMax := 1, type := .multipole }
  | 1 => { name := "vtep", westMax := 1, eastMax := 2, type := .multipole }
  | 2 => { name := "hub", westMax := 2, eastMax := 2, type := .multipole }

/-- A packet with room for a report. -/
def leavePacket : Mbuf :=
  { Mbuf.zero with bufLen := 100 }

/-- What the uplink answers when it cannot send. -/
def leaveRefusal : PgError :=
  pgErrorNew "can not send"

/-- Surroundings in which packets are allocated and the uplink refuses. -/
def leaveRefused : Surroundings :=
  { calmSurroundings with
    allocs := fun _ => some leavePacket
    answers := fun _ => -1
    errors := fun _ => some leaveRefusal }

/-- The vtep in some state; the uplink will refuse its leave messages. -/
def leaveHost (state : VtepState .v4) : VtepHost .v4 where
  state := state
  leaves := fun _ => leaveRefused
  stopped := none

/-- The program before any call. -/
def leaveStart : Graph (Fin 3) (Node (VtepHost .v4) Unit) where
  brick := fun which => { blankBrick (Fin 3) (leaveConfig which) with
      west :=
        { max := (leaveConfig which).westMax
          nb := 0
          edges := freshEdges (Fin 3) .multipole (leaveConfig which).westMax }
      east :=
        { max := (leaveConfig which).eastMax
          nb := 0
          edges := freshEdges (Fin 3) .multipole (leaveConfig which).eastMax } }
  priv
    | 1 => .own (leaveHost (vtepInit .west 0#32 0#48 0#16 0#32))
    | _ => .other ()

/-- The callbacks of the program. -/
def leaveOps : BrickOps (Fin 3) (Node (VtepHost .v4) Unit) :=
  nodeOps (vtepOps (Fin 3) .v4) (quietOps (Fin 3))

/-- The uplink is linked to the output side of the vtep, the hub to a port. -/
def leaveLinked : Graph (Fin 3) (Node (VtepHost .v4) Unit) :=
  leaveStart.after leaveOps (.chainedLinks (some 0) [1, 2])

/-- VNI 1 is attached to the port of the hub. -/
def leaveAttach : VtepOp (Fin 3) .v4 :=
  .addVni (some 2) 1#32 exampleGroup

/-- The vtep after VNI 1 was attached to the port of the hub. -/
def leaveVtep : VtepHost .v4 :=
  (leaveHost (vtepInit .west 0#32 0#48 0#16 0#32)).left (leaveAttach.run (leaveLinked.brick 1)
      (leaveHost (vtepInit .west 0#32 0#48 0#16 0#32)) calmSurroundings)

/-- The program after VNI 1 was attached. -/
def leaveAttached : Graph (Fin 3) (Node (VtepHost .v4) Unit) :=
  { leaveLinked with priv := Function.update leaveLinked.priv 1 (.own leaveVtep) }

/-- The hub after it was destroyed. -/
def leaveDestroyed : Except Abort (Graph (Fin 3) (Node (VtepHost .v4) Unit)) :=
  pgBrickDestroy leaveOps leaveAttached (some 2)

/--
Destroying a hub whose vtep cannot send its leave message: the vtep still
links to the hub, its counters are as before, and the hub is not released.
-/
theorem failed_leave_keeps_brick :
    (vtepSystem (quietOps (Fin 3))).Reachable leaveAttached ∧ ∃ after, leaveDestroyed = .ok after ∧
          pgBrickLinksCountGet (after.brick 1) 2 = 1 ∧
          (after.brick 1).east.nb = (leaveAttached.brick 1).east.nb ∧
          (after.brick 1).refcount = (leaveAttached.brick 1).refcount ∧
          (after.brick 2).released = 0 ∧
          ¬ Destroyed leaveAttached after 2 := by
  have started : (vtepSystem (quietOps (Fin 3))).Reachable leaveStart := by
    refine .initial (fun which => ?_)
    match which with
    | 0 =>
      exact .inr ⟨[{ name := "nop", stateSize := 1, init := fun _ _ => .ok () }],
          some "nop", some (leaveConfig 0), (), rfl, rfl⟩
    | 1 => exact .inl ⟨"vtep", 2, .west, 0#32, 0#48, 0#16, 0#32, _, _, rfl, rfl⟩
    | 2 =>
      exact .inr ⟨[{ name := "hub", stateSize := 1, init := fun _ _ => .ok () }],
          some "hub", some (leaveConfig 2), (), rfl, rfl⟩
  have linked : (vtepSystem (quietOps (Fin 3))).Reachable leaveLinked :=
    .step (.call (.chainedLinks (some 0) [1, 2])) started ⟨none, rfl⟩
  have attached : (vtepSystem (quietOps (Fin 3))).Reachable leaveAttached :=
    .step (.operate 1 leaveAttach calmSurroundings) linked ⟨_, rfl, rfl, trivial, rfl⟩
  have counts : leaveDestroyed.toOption.map (fun after =>
          (pgBrickLinksCountGet (after.brick 1) 2, (after.brick 1).east.nb,
            (after.brick 1).refcount, (after.brick 2).released)) =
        some (1, (leaveAttached.brick 1).east.nb, (leaveAttached.brick 1).refcount, 0) := by
    decide +kernel
  refine ⟨attached, ?_⟩
  cases isAfter : leaveDestroyed with
  | error reason =>
    rw [isAfter] at counts
    exact absurd counts (by simp [Except.toOption])
  | ok after =>
    rw [isAfter] at counts
    simp only [Except.toOption, map_some, some.injEq, Prod.mk.injEq] at counts
    obtain ⟨links, nb, refcount, released⟩ := counts
    refine ⟨after, rfl, links, nb, refcount, released, fun destroyed => ?_⟩
    have once := destroyed.released
    rw [released] at once
    exact absurd once (by decide)

end PacketGraph
