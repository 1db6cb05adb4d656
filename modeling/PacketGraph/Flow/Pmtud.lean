import PacketGraph.Vtep.Checksum
import PacketGraph.Lib.Reachability

namespace PacketGraph

open BitScan BitVec Bytes InternetChecksum List Option TransitionSystem

/-!
# The replies of a pmtud brick

`pmtud_init` builds one ICMP packet, and every reply of the brick is written
over it.  What the replies share is left as it was built, and the checksums are
made again after the fields of the last reply were replaced.
-/

section Template

/-- Append a header to a packet, if it has room. -/
def appendHeader (pkt : Mbuf) (bytes : List (BitVec 8)) : Option Mbuf :=
  (rtePktmbufAppend pkt bytes.length).map
    (fun grown => { grown with buf := store grown.buf (pkt.dataOff + pkt.dataLen) bytes })

/-- The header of `PACKETS_OPS_IPV4`. -/
def packetsIpv4 (srcIp dstIp : BitVec 32) (datagramLen : BitVec 16) (proto : BitVec 8) :
    List (BitVec 8) :=
  let fields (cksum : BitVec 16) :=
    [0x45#8, 0#8] ++ bytesOf 2 (rteCpuToBe16 datagramLen) ++ [0#8, 0#8] ++
      bytesOf 2 (rteCpuToBe16 0x4000#16) ++ [64#8, proto] ++ bytesOf 2 cksum ++
      bytesOf 4 srcIp ++ bytesOf 4 dstIp
  fields (rteIpv4Cksum (store (fun _ => 0#8) 0 (fields 0#16)) 0)

/--
`pmtud_init` on the packet that was allocated.  No result stands for a failed
allocation, and for a packet without room, whose headers it would write through
a null pointer.
-/
def pmtudInit (output : Side) (mtuSize : BitVec 32) (alloc : Option Mbuf) : Option PmtudState := do
  let icmp := rtePktmbufReset (← alloc)
  let icmp ← appendHeader icmp (bytesOf 6 0#48 ++ bytesOf 6 0#48 ++ bytesOf 2 beEtherTypeIpv4)
  let icmp ← appendHeader icmp (packetsIpv4 1#32 2#32 (36 + 20) 1#8)
  let grown ← rtePktmbufAppend icmp 36
  let msg := icmp.dataOff + icmp.dataLen
  let buf := store grown.buf msg [3#8, 4#8]
  let buf :=
    store buf (msg + 4) ([0#8, 0#8] ++ bytesOf 2 (rteCpuToBe16 ((mtuSize - 14#32).setWidth 16)))
  some
    { output := output
      ethMtuSize := mtuSize.toNat
      icmp := { grown with buf := buf, l2Len := 14, l3Len := 20, l2Type := 8#4 } }

/-- What all replies share. -/
structure IsTemplate (mtuSize : BitVec 32) (icmp : Mbuf) : Prop where
  length : icmp.pktLen = 70
  header : slice icmp.buf (icmp.dataOff + 14) 2 = [0x45#8, 0#8]
  totalLength : slice icmp.buf (icmp.dataOff + 16) 2 = bytesOf 2 (rteCpuToBe16 56#16)
  kind : slice icmp.buf (icmp.dataOff + 34) 2 = [3#8, 4#8]
  nextHop : slice icmp.buf (icmp.dataOff + 40) 2 =
      bytesOf 2 (rteCpuToBe16 ((mtuSize - 14#32).setWidth 16))

/-- Store the checksum of a memory in which its place is zeroed. -/
def checksummed (memory : Memory) (place : Nat) (cksum : Memory → BitVec 16) : Memory :=
  let zeroed := store memory place (bytesOf 2 0#16)
  store zeroed place (bytesOf 2 (cksum zeroed))

variable {memory : Memory}

theorem slice_checksummed {place other length : Nat} {cksum : Memory → BitVec 16}
    (apart : other + length ≤ place ∨ place + 2 ≤ other) :
    slice (checksummed memory place cksum) other length = slice memory other length := by
  unfold checksummed
  rw [slice_store_of_apart apart, slice_store_of_apart apart]

/-- With its checksum a stretch of memory folds to `0xFFFF`. -/
theorem fold_checksummed {address half rest : Nat} {cksum : Memory → BitVec 16}
    {first second : BitVec 8} (starts : slice memory address 2 = [first, second])
    (positive : 0 < first.toNat) (behind : 1 ≤ half) (short : 2 * half + (2 + rest) ≤ 36)
    (complements : ∀ zeroed, 0 < wordSum (slice zeroed address (2 * half + (2 + rest))) →
      wordSum (slice zeroed address (2 * half + (2 + rest))) < 4294901760 →
      fold (wordSum (slice zeroed address (2 * half + (2 + rest))) + (cksum zeroed).toNat) =
        0xFFFF) :
    fold (wordSum (slice (checksummed memory (address + 2 * half) cksum) address
      (2 * half + (2 + rest)))) = 0xFFFF := by
  let zeroed := store memory (address + 2 * half) (bytesOf 2 0#16)
  have begins : slice zeroed address 2 = [first, second] :=
    (slice_store_of_apart (.inl (by omega))).trans starts
  -- the sum over the zeroed place, to which the checksum adds
  have parts : wordSum (slice (checksummed memory (address + 2 * half) cksum) address
        (2 * half + (2 + rest))) =
      wordSum (slice zeroed address (2 * half + (2 + rest))) + (cksum zeroed).toNat := by
    dsimp only [checksummed, zeroed]
    rw [wordSum_slice_store, wordSum_slice_store, slice_store_of_apart (.inl (Nat.le_refl _)),
      slice_store_of_apart (.inr (by simp)), toNat_zero]
    omega
  have bound := wordSum_le (slice zeroed address (2 * half + (2 + rest)))
  rw [length_slice] at bound
  rw [parts]
  refine complements zeroed ?_ (by omega)
  rw [show 2 * half + (2 + rest) = 2 + (2 * half + rest) by omega, slice_add, begins]
  show 0 < first.toNat + _ + _
  omega

/-- A reply with its addresses. -/
def addressed (icmp pkt : Mbuf) : Memory :=
  let ip := pgUtilsGetL3 pkt
  let buf := store icmp.buf (icmp.dataOff + 6) (slice pkt.buf pkt.dataOff 6)
  let buf := store buf icmp.dataOff (slice pkt.buf (pkt.dataOff + 6) 6)
  let buf := store buf (icmp.dataOff + 26) (slice pkt.buf (ip + 16) 4)
  store buf (icmp.dataOff + 30) (slice pkt.buf (ip + 12) 4)

/-- A reply with its IP header. -/
def headed (icmp pkt : Mbuf) : Memory :=
  checksummed (addressed icmp pkt) (icmp.dataOff + 24)
    (fun buf => rteIpv4Cksum buf (icmp.dataOff + 14))

/-- A reply with the datagram it quotes. -/
def quoting (icmp pkt : Mbuf) : Memory :=
  store (store (headed icmp pkt) (icmp.dataOff + 42) (slice pkt.buf (pgUtilsGetL3 pkt) 20))
    (icmp.dataOff + 62) (slice pkt.buf (pgUtilsGetL3 pkt + 20) 8)

theorem buf_pmtudReply (icmp pkt : Mbuf) :
    (pmtudReply icmp pkt).buf = checksummed (quoting icmp pkt) (icmp.dataOff + 36)
        (fun buf => ~~~(rteRawCksum buf (icmp.dataOff + 34) 36)) :=
  rfl

variable (icmp pkt : Mbuf) {offset length : Nat}

theorem slice_addressed (shared : 12 ≤ offset ∧ offset + length ≤ 26 ∨ 34 ≤ offset) :
    slice (addressed icmp pkt) (icmp.dataOff + offset) length =
      slice icmp.buf (icmp.dataOff + offset) length := by
  unfold addressed
  dsimp only
  rw [slice_store_of_apart (by rw [length_slice]; omega),
    slice_store_of_apart (by rw [length_slice]; omega),
    slice_store_of_apart (by rw [length_slice]; omega),
    slice_store_of_apart (by rw [length_slice]; omega)]

/-- The quoted datagram stands behind all other fields. -/
theorem slice_quoting (front : offset + length ≤ 42) :
    slice (quoting icmp pkt) (icmp.dataOff + offset) length =
      slice (headed icmp pkt) (icmp.dataOff + offset) length := by
  unfold quoting
  rw [slice_store_of_apart (.inl (by omega)), slice_store_of_apart (.inl (by omega))]

/-- A reply leaves alone what the replies share. -/
theorem slice_pmtudReply
    (shared : 12 ≤ offset ∧ offset + length ≤ 24 ∨ 34 ≤ offset ∧ offset + length ≤ 36 ∨
      38 ≤ offset ∧ offset + length ≤ 42) :
    slice (pmtudReply icmp pkt).buf (icmp.dataOff + offset) length =
      slice icmp.buf (icmp.dataOff + offset) length := by
  rw [buf_pmtudReply, slice_checksummed (by omega), slice_quoting _ _ (by omega), headed,
    slice_checksummed (by omega), slice_addressed _ _ (by omega)]

variable {icmp pkt} {mtuSize : BitVec 32}

theorem IsTemplate.reply (template : IsTemplate mtuSize icmp) :
    IsTemplate mtuSize (pmtudReply icmp pkt) where
  length := template.length
  header := (slice_pmtudReply icmp pkt (by omega)).trans template.header
  totalLength := (slice_pmtudReply icmp pkt (by omega)).trans template.totalLength
  kind := (slice_pmtudReply icmp pkt (by omega)).trans template.kind
  nextHop := (slice_pmtudReply icmp pkt (by omega)).trans template.nextHop

/-- What a reply to a packet says. -/
structure IsReply (nextHopMtu : Nat) (pkt reply : Mbuf) : Prop where
  macs : slice reply.buf reply.dataOff 12 =
      slice pkt.buf (pkt.dataOff + 6) 6 ++ slice pkt.buf pkt.dataOff 6
  ips : slice reply.buf (reply.dataOff + 26) 8 =
      slice pkt.buf (pgUtilsGetL3 pkt + 16) 4 ++ slice pkt.buf (pgUtilsGetL3 pkt + 12) 4
  kind : slice reply.buf (reply.dataOff + 34) 2 = [3#8, 4#8]
  nextHop : loadBe16 reply.buf (reply.dataOff + 40) = nextHopMtu
  quote : slice reply.buf (reply.dataOff + 42) 28 = slice pkt.buf (pgUtilsGetL3 pkt) 28
  totalLength : loadBe16 reply.buf (reply.dataOff + 16) = reply.pktLen - 14
  ipCksum : fold (wordSum (slice reply.buf (reply.dataOff + 14) 20)) = 0xFFFF
  icmpCksum : fold (wordSum (slice reply.buf (reply.dataOff + 34) (reply.pktLen - 34))) = 0xFFFF

theorem loadBe16_of_slice {address : Nat} {value : BitVec 16}
    (isSlice : slice memory address 2 = bytesOf 2 (rteCpuToBe16 value)) :
    loadBe16 memory address = value.toNat := by
  unfold loadBe16
  rw [slice_eq_bytesOf_iff.mp isSlice, rteCpuToBe16_rteCpuToBe16]

/-- A template filled in for a packet replies to it. -/
theorem IsTemplate.isReply (template : IsTemplate mtuSize icmp) :
    IsReply ((mtuSize - 14#32).setWidth 16).toNat pkt (pmtudReply icmp pkt) := by
  have reply : IsTemplate mtuSize (pmtudReply icmp pkt) := template.reply
  have front {length : Nat} (offset : Nat) (before : offset + length ≤ 36) :
      slice (pmtudReply icmp pkt).buf (icmp.dataOff + offset) length =
        slice (headed icmp pkt) (icmp.dataOff + offset) length := by
    rw [buf_pmtudReply, slice_checksummed (.inl (by omega)), slice_quoting _ _ (by omega)]
  constructor
  case kind => exact reply.kind
  case nextHop => exact loadBe16_of_slice reply.nextHop
  case totalLength =>
    rw [reply.length]
    exact loadBe16_of_slice reply.totalLength
  case macs =>
    refine (front 0 (by omega)).trans ?_
    show slice (headed icmp pkt) icmp.dataOff 12 = _
    rw [headed, slice_checksummed (.inl (by omega)), addressed]
    rw [slice_store_of_apart (.inl (by omega)), slice_store_of_apart (.inl (by omega)),
      slice_add _ 6 6, slice_store (length_slice ..), slice_store_of_apart (.inr (by simp)),
      slice_store (length_slice ..)]
  case ips =>
    refine (front 26 (by omega)).trans ?_
    rw [headed, slice_checksummed (.inr (by omega)), addressed, slice_add _ 4 4]
    rw [slice_store_of_apart (.inl (by omega)), slice_store (length_slice ..),
      slice_store (length_slice ..)]
  case quote =>
    show slice _ (icmp.dataOff + 42) 28 = _
    rw [buf_pmtudReply, slice_checksummed (.inr (by omega)), quoting, slice_add _ 20 8,
      slice_add _ 20 8, slice_store_of_apart (.inl (by omega)), slice_store (length_slice ..),
      slice_store (length_slice ..)]
  case ipCksum =>
    refine (congrArg (fold ∘ wordSum) (front 14 (by omega))).trans ?_
    have starts := (slice_addressed icmp pkt (by omega)).trans template.header
    refine @fold_checksummed (addressed icmp pkt) _ 5 8 _ _ _ starts
      (by decide) (by decide) (by decide) (fun zeroed positive small => ?_)
    rw [rteIpv4Cksum_eq]
    exact fold_add_foldedComplement positive small
  case icmpCksum =>
    have starts := (slice_quoting icmp pkt (by omega)).trans <|
      (slice_checksummed (by omega)).trans <|
        (slice_addressed icmp pkt (by omega)).trans template.kind
    rw [reply.length, buf_pmtudReply]
    refine @fold_checksummed (quoting icmp pkt) _ 1 32 _ _ _ starts
      (by decide) (by decide) (by decide) (fun zeroed positive small => ?_)
    exact fold_add_complement positive small

/-- A header is stored behind the data. -/
theorem appendHeader_eq_some {bytes : List (BitVec 8)} {grown : Mbuf}
    (appended : appendHeader pkt bytes = some grown) :
    grown = { pkt with
      buf := store pkt.buf (pkt.dataOff + pkt.dataLen) bytes
      dataLen := pkt.dataLen + bytes.length
      pktLen := pkt.pktLen + bytes.length } := by
  unfold appendHeader rtePktmbufAppend at appended
  split at appended
  · exact absurd appended (by simp)
  · exact (Option.some.inj appended).symm

/-- The headers that `pmtud_init` stores in turn. -/
theorem IsTemplate.built (isLength : icmp.pktLen = 70)
    (isBuf : icmp.buf = store (store (store (store memory icmp.dataOff
      (bytesOf 6 0#48 ++ bytesOf 6 0#48 ++ bytesOf 2 beEtherTypeIpv4))
      (icmp.dataOff + 14) (packetsIpv4 1#32 2#32 (36 + 20) 1#8)) (icmp.dataOff + 34) [3#8, 4#8])
      (icmp.dataOff + 38)
      ([0#8, 0#8] ++ bytesOf 2 (rteCpuToBe16 ((mtuSize - 14#32).setWidth 16)))) :
    IsTemplate mtuSize icmp := by
  have inHeader (offset : Nat) {length : Nat} (inside : offset + length ≤ 20) :
      slice icmp.buf (icmp.dataOff + 14 + offset) length =
        ((packetsIpv4 1#32 2#32 (36 + 20) 1#8).drop offset).take length := by
    rw [isBuf, slice_store_of_apart (.inl (by omega)), slice_store_of_apart (.inl (by omega))]
    exact slice_store_within inside
  refine ⟨isLength, inHeader 0 (by decide), inHeader 2 (by decide), ?_, ?_⟩
  · rw [isBuf, slice_store_of_apart (.inl (by omega))]
    exact slice_store rfl
  · show slice icmp.buf (icmp.dataOff + 38 + 2) 2 = _
    rw [isBuf, slice_store_within (Nat.le_refl 4)]
    rfl

/-- `pmtud_init` builds a template. -/
theorem IsTemplate.init {output : Side} {alloc : Option Mbuf} {state : PmtudState}
    (started : pmtudInit output mtuSize alloc = some state) :
    state.output = output ∧ state.ethMtuSize = mtuSize.toNat ∧ IsTemplate mtuSize state.icmp := by
  obtain ⟨mbuf, _, started⟩ := bind_eq_some_iff.mp started
  obtain ⟨ether, isEther, started⟩ := bind_eq_some_iff.mp started
  obtain ⟨ip, isIp, started⟩ := bind_eq_some_iff.mp started
  obtain ⟨grown, isGrown, started⟩ := bind_eq_some_iff.mp started
  cases appendHeader_eq_some isEther
  cases appendHeader_eq_some isIp
  unfold rtePktmbufAppend at isGrown
  split at isGrown
  · exact absurd isGrown (by simp)
  cases isGrown
  cases started
  exact ⟨rfl, rfl, .built rfl rfl⟩

end Template

section Sorting

/-- An IPv4 packet that may not be fragmented is longer than the MTU. -/
def offends (mtuSize : Nat) (pkt : Mbuf) : Bool :=
  pgUtilsGetEtherType pkt = beEtherTypeIpv4 &&
    (loadBe16 pkt.buf (pgUtilsGetL3 pkt + 6)).testBit 14 && decide (mtuSize < pkt.pktLen)

theorem pmtudTooBig_eq (state : PmtudState) (pkt : Mbuf) :
    pmtudTooBig state pkt = offends state.ethMtuSize pkt := by
  have sameBit (buf : Memory) (address : Nat) :
      (loadBe16 buf address).testBit 14 = (buf address).getLsbD 6 := by
    show (rteCpuToBe16 (load 2 buf address)).getLsbD 14 = _
    rw [rteCpuToBe16, getLsbD_append]
    refine Eq.trans ?_ (getLsbD_load 2 buf address (show 6 < 8 * 2 by decide))
    simp
  unfold offends pmtudTooBig
  rw [sameBit]

/-- A burst through a pmtud brick. -/
structure PmtudCall (ι : Type) where
  brick : Brick ι
  fromSide : Side
  pkts : Nat → Mbuf
  pktsMask : BitVec 64
  answers : Answers

/-- The bursts through a pmtud brick after `pg_pmtud_new`. -/
def pmtudRuns (ι : Type) (output : Side) (mtuSize : BitVec 32) : System PmtudState (PmtudCall ι) :=
  .ofStep (fun state => ∃ alloc, pmtudInit output mtuSize alloc = some state) (fun state call =>
      some (pmtudBurst call.brick state call.fromSide call.pkts call.pktsMask call.answers).state)

/-- What holds of a pmtud brick at all times. -/
def IsPmtud (output : Side) (mtuSize : BitVec 32) (state : PmtudState) : Prop :=
  state.output = output ∧ state.ethMtuSize = mtuSize.toNat ∧ IsTemplate mtuSize state.icmp

variable {ι : Type} {output : Side} {mtuSize : BitVec 32} {state : PmtudState}

theorem IsPmtud.reply (pmtud : IsPmtud output mtuSize state) (pkt : Mbuf) :
    IsPmtud output mtuSize { state with icmp := pmtudReply state.icmp pkt } :=
  ⟨pmtud.1, pmtud.2.1, pmtud.2.2.reply⟩

theorem IsPmtud.pmtudFrom (pmtud : IsPmtud output mtuSize state) (brick : Brick ι) (fromSide : Side)
    (pkts : Nat → Mbuf) (places : List Nat) (pktsMask : BitVec 64) (answers : Answers) :
    IsPmtud output mtuSize (pmtudFrom brick fromSide pkts places pktsMask answers state).state := by
  induction places generalizing pktsMask answers state with
  | nil =>
    unfold PacketGraph.pmtudFrom
    split <;> exact pmtud
  | cons i rest ih =>
    unfold PacketGraph.pmtudFrom
    split
    · dsimp only
      split
      · exact ih (pmtud.reply _) _ _
      · split
        · exact pmtud.reply _
        · exact ih (pmtud.reply _) _ _
    · exact ih pmtud _ _

/-- A pmtud brick keeps its MTU and its template. -/
theorem isPmtud_of_reachable (reachable : (pmtudRuns ι output mtuSize).Reachable state) :
    IsPmtud output mtuSize state := by
  refine reachable.invariant ?_ ?_
  · rintro _ ⟨alloc, started⟩
    exact IsTemplate.init started
  · rintro before call _ pmtud stepped
    cases stepped
    unfold pmtudBurst
    split
    · exact pmtud.pmtudFrom _ _ _ _ _ _
    · exact pmtud.pmtudFrom _ _ _ _ _ _

/-- The loop sends a reply for each packet that is too long, and then the others. -/
theorem pmtudFrom_sorts {brick : Brick ι} {fromSide : Side} {back : Send ι}
    {onward : BitVec 64 → Send ι}
    (isBack : edgeSend brick fromSide 0 (pgFlipSide fromSide) 1#64 = some back)
    (isOnward : ∀ mask, edgeSend brick (pgFlipSide fromSide) 0 fromSide mask = some (onward mask))
    {answers : Answers} (accepted : ∀ call, answers call = 0) (pkts : Nat → Mbuf)
    {places : List Nat} (distinct : places.Nodup) {pktsMask : BitVec 64}
    (used : ∀ i ∈ places, pktsMask.getLsbD i = true) (pmtud : IsPmtud output mtuSize state) :
    ∃ replies forwarded,
      List.Forall₂ (fun i => IsReply ((mtuSize - 14#32).setWidth 16).toNat (pkts i))
          (places.filter (fun i => offends mtuSize.toNat (pkts i))) replies ∧
        (∀ i, forwarded.getLsbD i = (pktsMask.getLsbD i &&
          !(decide (i ∈ places) && offends mtuSize.toNat (pkts i)))) ∧
        (pmtudFrom brick fromSide pkts places pktsMask answers state).code = 0 ∧
        (pmtudFrom brick fromSide pkts places pktsMask answers state).deliveries =
          replies.map (fun reply => { back with pkts := fun _ => reply }) ++
            if forwarded = 0#64 then [] else [{ onward forwarded with pkts := pkts }] := by
  induction places generalizing pktsMask answers state with
  | nil =>
    refine ⟨[], pktsMask, .nil, by simp, ?_⟩
    unfold pmtudFrom
    split
    · exact ⟨rfl, rfl⟩
    · rw [isOnward]
      exact ⟨accepted 0, rfl⟩
  | cons i rest ih =>
    obtain ⟨notLater, distinctRest⟩ := nodup_cons.mp distinct
    have usedRest {mask : BitVec 64} (same : ∀ j ≠ i, mask.getLsbD j = pktsMask.getLsbD j) :
        ∀ j ∈ rest, mask.getLsbD j = true := by
      intro j member
      rw [same j (fun isHere => notLater (isHere ▸ member))]
      exact used j (mem_cons_of_mem i member)
    have isTest : pmtudTooBig state (pkts i) = offends mtuSize.toNat (pkts i) := by
      rw [pmtudTooBig_eq, pmtud.2.1]
    unfold pmtudFrom
    by_cases tooBig : offends mtuSize.toNat (pkts i) = true
    · have cleared := getLsbD_flip (used i mem_cons_self)
      obtain ⟨replies, forwarded, areReplies, isForwarded, code, sent⟩ :=
        @ih _ (answers.after 1) (fun call => accepted (1 + call)) distinctRest _
          (usedRest (fun j other => by rw [cleared]; simp [other])) (pmtud.reply (pkts i))
      refine ⟨pmtudReply state.icmp (pkts i) :: replies, forwarded, ?_, ?_, ?_⟩
      · rw [filter_cons, if_pos tooBig]
        exact .cons pmtud.2.2.isReply areReplies
      · intro j
        rw [isForwarded, cleared]
        by_cases isHere : j = i <;> simp [isHere, tooBig]
      · rw [if_pos (isTest.trans tooBig), isBack]
        dsimp only
        rw [if_neg (by rw [accepted 0]; decide)]
        exact ⟨code, congrArg (List.cons _) sent⟩
    · obtain ⟨replies, forwarded, areReplies, isForwarded, sent⟩ :=
        ih accepted distinctRest (usedRest (fun _ _ => rfl)) pmtud
      refine ⟨replies, forwarded, ?_, ?_, ?_⟩
      · rwa [filter_cons, if_neg tooBig]
      · intro j
        rw [isForwarded]
        by_cases isHere : j = i <;> simp [isHere, tooBig]
      · rwa [isTest, if_neg tooBig]

/--
A burst from the output side, with neighbours that return 0, goes on without
the packets that are too long, each of which is replied to.
-/
theorem pmtud_burst_sorts (large : 14 ≤ mtuSize.toNat) (small : mtuSize.toNat ≤ 65549)
    (reachable : (pmtudRuns ι output mtuSize).Reachable state) {brick : Brick ι} {back : Send ι}
    {onward : BitVec 64 → Send ι}
    (isBack : edgeSend brick output 0 (pgFlipSide output) 1#64 = some back)
    (isOnward : ∀ mask, edgeSend brick (pgFlipSide output) 0 output mask = some (onward mask))
    {answers : Answers} (accepted : ∀ call, answers call = 0) (pkts : Nat → Mbuf)
    (pktsMask : BitVec 64) :
    ∃ replies forwarded, List.Forall₂ (fun i => IsReply (mtuSize.toNat - 14) (pkts i))
          ((lowBits pktsMask).filter (fun i => offends mtuSize.toNat (pkts i))) replies ∧
        (∀ i, forwarded.getLsbD i = (pktsMask.getLsbD i && !offends mtuSize.toNat (pkts i))) ∧
        (pmtudBurst brick state output pkts pktsMask answers).code = 0 ∧
        (pmtudBurst brick state output pkts pktsMask answers).deliveries =
          replies.map (fun reply => { back with pkts := fun _ => reply }) ++
            if forwarded = 0#64 then [] else [{ onward forwarded with pkts := pkts }] := by
  have pmtud := isPmtud_of_reachable reachable
  have nextHop : ((mtuSize - 14#32).setWidth 16).toNat = mtuSize.toNat - 14 := by
    rw [toNat_setWidth, toNat_sub_of_le (by simpa [le_def] using large)]
    exact Nat.mod_eq_of_lt (by simp; omega)
  obtain ⟨replies, forwarded, areReplies, isForwarded, sent⟩ :=
    pmtudFrom_sorts isBack isOnward accepted pkts (lowBits_nodup pktsMask)
      (fun _ member => mem_lowBits.mp member) pmtud
  refine ⟨replies, forwarded, nextHop ▸ areReplies, fun i => ?_, ?_⟩
  · rw [isForwarded]
    cases isUsed : pktsMask.getLsbD i <;> simp [isUsed]
  · unfold pmtudBurst
    rwa [if_pos pmtud.1]

/-- A pmtud brick between two others. -/
def linkedPmtud : Brick Unit where
  type := .dipole
  name := "pmtud"
  refcount := 3
  released := 0
  output := .west
  west := { max := 1, nb := 1, edges := [⟨some (), 0⟩] }
  east := { max := 1, nb := 1, edges := [⟨some (), 0⟩] }

/-- An Ethernet packet that carries a long IPv4 datagram. -/
def plainPacket : Mbuf :=
  { Mbuf.zero with
    buf := store (store (fun _ => 0#8) 12 [0x08#8, 0#8]) 20 [0x40#8]
    pktLen := 1515 }

theorem exists_started (output : Side) (mtuSize : BitVec 32) :
    ∃ state, (pmtudRuns Unit output mtuSize).Reachable state := by
  obtain ⟨state, started⟩ := isSome_iff_exists.mp
    (show (pmtudInit output mtuSize (some { Mbuf.zero with bufLen := 2048 })).isSome = true
      from rfl)
  exact ⟨state, .initial ⟨_, started⟩⟩

/-- A packet that is too long for an MTU of 1500, and then short ones. -/
def mixedPackets (i : Nat) : Mbuf :=
  pgUtilsGuessL2 (if i = 0 then plainPacket else { plainPacket with pktLen := 60 })

/-- The long packet of two is replied to, and the short one goes on alone. -/
theorem pmtud_burst_sorts_plain :
    ∃ state back onward reply,
      (pmtudRuns Unit .west 1500#32).Reachable state ∧
      edgeSend linkedPmtud .west 0 .east 1#64 = some back ∧
      edgeSend linkedPmtud .east 0 .west 4#64 = some onward ∧
      IsReply 1486 (mixedPackets 0) reply ∧
      (pmtudBurst linkedPmtud state .west mixedPackets 5#64 (fun _ => 0)).code = 0 ∧
      (pmtudBurst linkedPmtud state .west mixedPackets 5#64 (fun _ => 0)).deliveries =
        [{ back with pkts := fun _ => reply }, { onward with pkts := mixedPackets }] := by
  obtain ⟨state, reachable⟩ := exists_started .west 1500#32
  obtain ⟨replies, forwarded, areReplies, isForwarded, code, sent⟩ :=
    pmtud_burst_sorts (by decide) (by decide) reachable
      (show edgeSend linkedPmtud .west 0 .east 1#64 = some _ from rfl)
      (fun mask => show edgeSend linkedPmtud .east 0 .west mask = some _ from rfl)
      (fun _ => rfl) mixedPackets 5#64
  have onlyFirst : (lowBits 5#64).filter (fun i => offends 1500 (mixedPackets i)) = [0] := by
    decide +kernel
  obtain ⟨reply, _, isReply, noMore, rfl⟩ := forall₂_cons_left_iff.mp (onlyFirst ▸ areReplies)
  cases noMore
  obtain rfl : forwarded = 4#64 := by
    refine eq_of_getLsbD_eq (fun i below => (isForwarded i).trans ?_)
    revert i
    decide +kernel
  exact ⟨state, _, _, reply, reachable, rfl, rfl, isReply, code, sent⟩

end Sorting

section Converging

variable {ι : Type} {output : Side} {mtuSize : BitVec 32} {state : PmtudState} {pkt : Mbuf}

/-- The next-hop MTU of a reply. -/
def advertised (reply : Mbuf) : Nat :=
  loadBe16 reply.buf (reply.dataOff + 40)

/-- A packet of a sender that follows a reply to another one. -/
structure Obeys (nextHopMtu : Nat) (pkt next : Mbuf) : Prop where
  l2Len : next.l2Len = pkt.l2Len
  l2 : slice next.buf next.dataOff pkt.l2Len = slice pkt.buf pkt.dataOff pkt.l2Len
  dontFragment : (loadBe16 next.buf (pgUtilsGetL3 next + 6)).testBit 14 = true
  pktLen : next.pktLen = next.l2Len + loadBe16 next.buf (pgUtilsGetL3 next + 2)
  length : loadBe16 next.buf (pgUtilsGetL3 next + 2) ≤ nextHopMtu

/-- A frame with a datagram of the advertised length is rejected if it is too long. -/
theorem exists_rejected_again (pmtud : IsPmtud output mtuSize state)
    (rejected : pmtudTooBig state pkt = true)
    (long : mtuSize.toNat < pkt.l2Len + ((mtuSize - 14#32).setWidth 16).toNat) :
    ∃ next, Obeys (advertised (pmtudReply state.icmp pkt)) pkt next ∧
      pmtudTooBig state next = true := by
  rw [pmtudTooBig_eq, offends, Bool.and_eq_true, Bool.and_eq_true, decide_eq_true_eq] at rejected
  obtain ⟨⟨isIpv4, isWhole⟩, _⟩ := rejected
  let nextHop : BitVec 16 := (mtuSize - 14#32).setWidth 16
  let next : Mbuf :=
    { pkt with
      buf := store pkt.buf (pgUtilsGetL3 pkt + 2) (bytesOf 2 (rteCpuToBe16 nextHop))
      pktLen := pkt.l2Len + nextHop.toNat }
  have isLength : loadBe16 next.buf (pgUtilsGetL3 next + 2) = nextHop.toNat :=
    loadBe16_of_slice (slice_store (length_bytesOf ..))
  have sameFlags : loadBe16 next.buf (pgUtilsGetL3 next + 6) =
      loadBe16 pkt.buf (pgUtilsGetL3 pkt + 6) := by
    have behind : load 2 next.buf (pgUtilsGetL3 pkt + 6) = load 2 pkt.buf (pgUtilsGetL3 pkt + 6) :=
      load_congr (fun place _ => store_of_le (by rw [length_bytesOf]; omega))
    exact congrArg (fun field => (rteCpuToBe16 field).toNat) behind
  have before : pkt.dataOff + pkt.l2Len - 2 + 2 ≤ pgUtilsGetL3 pkt + 2 := by
    unfold pgUtilsGetL3
    omega
  have sameType : pgUtilsGetEtherType next = pgUtilsGetEtherType pkt := load_store_of_le before
  have isReply : IsReply _ pkt (pmtudReply state.icmp pkt) := pmtud.2.2.isReply
  refine ⟨next, ⟨rfl, slice_store_of_apart (.inl (Nat.le_add_right _ 2)), ?_, ?_, ?_⟩, ?_⟩
  · rw [sameFlags]
    exact isWhole
  · rw [isLength]
  · rw [isLength]
    exact isReply.nextHop.ge
  · rw [pmtudTooBig_eq, offends, sameFlags, sameType, isIpv4, isWhole, pmtud.2.1]
    exact decide_eq_true long

/--
A sender that follows the reply to a packet is rejected no more exactly if the
MTU is at least 14, and for a packet with a VLAN tag at least 65550.
-/
theorem pmtud_converges_iff (reachable : (pmtudRuns ι output mtuSize).Reachable state)
    (rejected : pmtudTooBig state (pgUtilsGuessL2 pkt) = true) :
    (∀ next later, (pmtudRuns ι output mtuSize).Reachable later →
        Obeys (advertised (pmtudReply state.icmp (pgUtilsGuessL2 pkt))) (pgUtilsGuessL2 pkt) next →
        pmtudTooBig later next = false) ↔
      if load 2 pkt.buf (pkt.dataOff + 12) = beEtherTypeVlan then 65550 ≤ mtuSize.toNat
      else 14 ≤ mtuSize.toNat := by
  have pmtud := isPmtud_of_reachable reachable
  have isNextHop : advertised (pmtudReply state.icmp (pgUtilsGuessL2 pkt)) = _ :=
    pmtud.2.2.isReply.nextHop
  have fits : (pgUtilsGuessL2 pkt).l2Len + ((mtuSize - 14#32).setWidth 16).toNat ≤ mtuSize.toNat ↔
      if load 2 pkt.buf (pkt.dataOff + 12) = beEtherTypeVlan then 65550 ≤ mtuSize.toNat
      else 14 ≤ mtuSize.toNat := by
    have bound := mtuSize.isLt
    rw [toNat_setWidth, toNat_sub, pgUtilsGuessL2]
    split
    · show 14 + 4 + (2 ^ 32 - 14 + mtuSize.toNat) % 2 ^ 32 % 2 ^ 16 ≤ _ ↔ _
      omega
    · show 14 + (2 ^ 32 - 14 + mtuSize.toNat) % 2 ^ 32 % 2 ^ 16 ≤ _ ↔ _
      omega
  rw [← fits]
  constructor
  · intro converges
    by_contra long
    obtain ⟨next, obeys, again⟩ := exists_rejected_again pmtud rejected (by omega)
    exact absurd (converges next state reachable obeys) (by simp [again])
  · intro enough next later laterReachable obeys
    have length := obeys.length
    rw [isNextHop] at length
    have short : ¬ mtuSize.toNat < next.pktLen := by
      rw [obeys.pktLen, obeys.l2Len]
      omega
    rw [pmtudTooBig_eq, offends, (isPmtud_of_reachable laterReachable).2.1,
      decide_eq_false short, Bool.and_false]

/-- Behind an MTU of 1500 a sender of untagged packets is rejected only once. -/
theorem pmtud_converges_plain :
    ∃ state, (pmtudRuns Unit .west 1500#32).Reachable state ∧
      pmtudTooBig state (pgUtilsGuessL2 plainPacket) = true ∧
      ∀ next later, (pmtudRuns Unit .west 1500#32).Reachable later →
        Obeys (advertised (pmtudReply state.icmp (pgUtilsGuessL2 plainPacket)))
          (pgUtilsGuessL2 plainPacket) next → pmtudTooBig later next = false := by
  obtain ⟨state, reachable⟩ := exists_started .west 1500#32
  have rejected : pmtudTooBig state (pgUtilsGuessL2 plainPacket) = true := by
    rw [pmtudTooBig_eq, (isPmtud_of_reachable reachable).2.1]
    rfl
  exact ⟨state, reachable, rejected, (pmtud_converges_iff reachable rejected).mpr (by decide)⟩

/-- An Ethernet packet with a VLAN tag that carries a long IPv4 datagram. -/
def taggedPacket : Mbuf :=
  { Mbuf.zero with
    buf := store (store (store (fun _ => 0#8) 12 [0x81#8, 0#8]) 16 [0x08#8, 0#8]) 24 [0x40#8]
    pktLen := 1519 }

/-- With an MTU of 1500 a datagram of 1486 bytes behind a VLAN tag is rejected again. -/
theorem tagged_packet_rejected_again :
    ∃ state next, (pmtudRuns Unit .west 1500#32).Reachable state ∧
      pmtudTooBig state (pgUtilsGuessL2 taggedPacket) = true ∧
      Obeys (advertised (pmtudReply state.icmp (pgUtilsGuessL2 taggedPacket)))
        (pgUtilsGuessL2 taggedPacket) next ∧ pmtudTooBig state next = true := by
  obtain ⟨state, reachable⟩ := exists_started .west 1500#32
  have pmtud := isPmtud_of_reachable reachable
  have rejected : pmtudTooBig state (pgUtilsGuessL2 taggedPacket) = true := by
    rw [pmtudTooBig_eq, pmtud.2.1]
    rfl
  obtain ⟨next, obeys, again⟩ := exists_rejected_again pmtud rejected (by decide)
  exact ⟨state, next, reachable, rejected, obeys, again⟩

end Converging

end PacketGraph
