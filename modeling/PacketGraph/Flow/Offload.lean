import PacketGraph.Flow.Pmtud
import PacketGraph.Flow.Transmit

namespace PacketGraph

open BitScan BitVec Bytes InternetChecksum List

/-!
# Checksums of a nic without offload

A nic whose port cannot compute checksums does so before it sends a burst.  It
finds the header of layer 4 as a field of a packed structure, behind an IPv4
header of 20 bytes, whatever length that header has.
-/

/-- Where a TCP or UDP header has its checksum. -/
def cksumOffset (nextProtoId : BitVec 8) : Nat :=
  if nextProtoId = 6#8 then 16 else 6

/-- The flags and protocols for which `nic_burst_no_offload` computes a checksum. -/
def Offloads (pkt : Mbuf) : Prop :=
  pkt.olFlags &&& cksumFlags ≠ 0#64 ∧ load 2 pkt.buf (pgUtilsGetL3 pkt - 2) = beEtherTypeIpv4 ∧
    (pkt.buf (pgUtilsGetL3 pkt + 9) = 6#8 ∨ pkt.buf (pgUtilsGetL3 pkt + 9) = 17#8)

instance (pkt : Mbuf) : Decidable (Offloads pkt) :=
  inferInstanceAs (Decidable (_ ∧ _ ∧ _))

/-- The checksum that `struct headers_eth_ipv4_l4` has at a fixed place. -/
def fixedCksum (pkt : Mbuf) : Nat :=
  pgUtilsGetL3 pkt + 20 + cksumOffset (pkt.buf (pgUtilsGetL3 pkt + 9))

/-- The memory over which the checksum is computed. -/
def zeroedCksums (pkt : Mbuf) : Memory :=
  store (store pkt.buf (pgUtilsGetL3 pkt + 10) (bytesOf 2 0#16)) (fixedCksum pkt) (bytesOf 2 0#16)

/-- The checksum that is written. -/
def softwareCksum (pkt : Mbuf) : BitVec 16 :=
  ipUdptcpCksum .v4 (zeroedCksums pkt) (pgUtilsGetL3 pkt) (pgUtilsGetL3 pkt + 20)

/-- The body of the loop of `nic_burst_no_offload`. -/
def noOffloadPkt (pkt : Mbuf) : Mbuf :=
  if Offloads pkt then
    let ipv4Csum := load 2 pkt.buf (pgUtilsGetL3 pkt + 10)
    let buf := store (zeroedCksums pkt) (fixedCksum pkt) (bytesOf 2 (softwareCksum pkt))
    { pkt with buf := store buf (pgUtilsGetL3 pkt + 10) (bytesOf 2 ipv4Csum) }
  else
    pkt

/-- The loop of `nic_burst_no_offload`. -/
def noOffloadFrom : List Nat → (Nat → Mbuf) → (Nat → Mbuf)
  | [], pkts => pkts
  | i :: rest, pkts => noOffloadFrom rest (Function.update pkts i (noOffloadPkt (pkts i)))

/-- The packets that `nic_burst_no_offload` hands to `nic_burst`. -/
def nicBurstNoOffload (pkts : Nat → Mbuf) (pktsMask : BitVec 64) : Nat → Mbuf :=
  noOffloadFrom (lowBits pktsMask) pkts

theorem noOffloadFrom_eq {places : List Nat} (distinct : places.Nodup) (pkts : Nat → Mbuf) (i : Nat)
    : noOffloadFrom places pkts i = if i ∈ places then noOffloadPkt (pkts i) else pkts i := by
  induction places generalizing pkts with
  | nil => rfl
  | cons place rest ih =>
    obtain ⟨fresh, distinctRest⟩ := nodup_cons.mp distinct
    rw [noOffloadFrom, ih distinctRest]
    by_cases isHere : i = place
    · subst isHere
      simp [fresh]
    · simp [isHere]

/-- The length of an IPv4 header. -/
def ipv4HdrLen (buf : Memory) (ip : Nat) : Nat :=
  4 * (buf ip &&& 15#8).toNat

/-- The bytes of the pseudo-header. -/
def pseudoHeader (buf : Memory) (ip l4Len : Nat) : List (BitVec 8) :=
  slice buf (ip + 12) 8 ++ [0#8, buf (ip + 9)] ++ bytesOf 2 (rteCpuToBe16 (BitVec.ofNat 16 l4Len))

/-- The checksum of layer 4 verifies over the pseudo-header and the bytes behind the IP header. -/
def L4Verifies (buf : Memory) (ip : Nat) : Prop :=
  let l4Len := loadBe16 buf (ip + 2) - ipv4HdrLen buf ip
  fold (wordSum (pseudoHeader buf ip l4Len ++ slice buf (ip + ipv4HdrLen buf ip) l4Len)) = 0xFFFF

instance (buf : Memory) (ip : Nat) : Decidable (L4Verifies buf ip) :=
  inferInstanceAs (Decidable (_ = _))

/-- An unfragmented IPv4 packet with a whole TCP or UDP header, at some place. -/
structure IsWholeL4 (buf : Memory) (ip : Nat) : Prop where
  version : buf ip >>> 4 = 4#8
  ihl : 20 ≤ ipv4HdrLen buf ip
  unfragmented : loadBe16 buf (ip + 6) % 16384 = 0
  whole : ipv4HdrLen buf ip + cksumOffset (buf (ip + 9)) + 2 ≤ loadBe16 buf (ip + 2)

/-- The checksum of layer 4 behind an IPv4 header of any length. -/
def l4Cksum (pkt : Mbuf) : Nat :=
  pgUtilsGetL3 pkt + ipv4HdrLen pkt.buf (pgUtilsGetL3 pkt) +
    cksumOffset (pkt.buf (pgUtilsGetL3 pkt + 9))

/-- A packet is sent with a right checksum, and with no other byte changed. -/
structure SentRight (pkt sent : Mbuf) : Prop where
  verifies : L4Verifies sent.buf (pgUtilsGetL3 pkt)
  metadata : sent = { pkt with buf := sent.buf }
  same : ∀ place, place < l4Cksum pkt ∨ l4Cksum pkt + 2 ≤ place → sent.buf place = pkt.buf place

section Packet

variable {pkt : Mbuf}

theorem cksumOffset_even (nextProtoId : BitVec 8) : ∃ half, cksumOffset nextProtoId = 2 * half := by
  unfold cksumOffset
  split
  · exact ⟨8, rfl⟩
  · exact ⟨3, rfl⟩

/-- Only the two bytes at the fixed place are written. -/
theorem noOffloadPkt_eq (offloads : Offloads pkt) :
    noOffloadPkt pkt =
      { pkt with buf := store pkt.buf (fixedCksum pkt) (bytesOf 2 (softwareCksum pkt)) } := by
  have apart : pgUtilsGetL3 pkt + 10 + 2 ≤ fixedCksum pkt := by
    unfold fixedCksum
    omega
  unfold noOffloadPkt
  rw [if_pos offloads]
  dsimp only [zeroedCksums]
  congr 1
  funext place
  by_cases isCsum : pgUtilsGetL3 pkt + 10 ≤ place ∧ place < pgUtilsGetL3 pkt + 10 + 2
  · obtain ⟨distance, rfl⟩ := Nat.exists_eq_add_of_le isCsum.1
    have inside : distance < 2 := by omega
    rw [store_add (getElem?_bytesOf _ inside), store_of_lt (by omega)]
    exact (load_eq_iff.mp rfl distance inside).symm
  rw [store_of_apart (by rw [length_bytesOf]; omega)]
  by_cases isCksum : fixedCksum pkt ≤ place ∧ place < fixedCksum pkt + 2
  · obtain ⟨distance, rfl⟩ := Nat.exists_eq_add_of_le isCksum.1
    have inside : distance < 2 := by omega
    rw [store_add (getElem?_bytesOf _ inside), store_add (getElem?_bytesOf _ inside)]
  · have outside : place < fixedCksum pkt ∨ fixedCksum pkt + 2 ≤ place := by omega
    rw [store_of_apart outside, store_of_apart outside,
      store_of_apart (by rw [length_bytesOf]; omega), store_of_apart outside]

theorem wordSum_pseudoHeader_pos {buf : Memory} {ip : Nat} (isProto : buf (ip + 9) ≠ 0#8)
    (l4Len : Nat) : 0 < wordSum (pseudoHeader buf ip l4Len) := by
  have positive : 0 < (buf (ip + 9)).toNat :=
    Nat.pos_iff_ne_zero.mpr (fun isZero => isProto (eq_of_toNat_eq isZero))
  rw [pseudoHeader, List.append_assoc, wordSum_append (by simp)]
  show 0 < _ + (0 + 256 * (buf (ip + 9)).toNat + _)
  omega

/-- The two checksums are no part of the pseudo-header. -/
theorem pseudoHeader_store {buf : Memory} {ip place : Nat} {value : BitVec 16} (l4Len : Nat)
    (apart : place = ip + 10 ∨ ip + 20 ≤ place) :
    pseudoHeader (store buf place (bytesOf 2 value)) ip l4Len = pseudoHeader buf ip l4Len := by
  unfold pseudoHeader
  rw [slice_store_of_apart (by rw [length_bytesOf]; omega), store_of_lt (by omega)]

/-- Behind a header of 20 bytes the checksum that is written verifies. -/
theorem verifies_store {buf : Memory} {ip half : Nat} (isProto : buf (ip + 9) ≠ 0#8)
    (plain : ipv4HdrLen buf ip = 20) (whole : 20 + 2 * half + 2 ≤ loadBe16 buf (ip + 2))
    {zeroed : Memory} (isZeroed : zeroed = store (store buf (ip + 10) (bytesOf 2 0#16))
      (ip + 20 + 2 * half) (bytesOf 2 0#16)) :
    L4Verifies (store buf (ip + 20 + 2 * half)
      (bytesOf 2 (ipUdptcpCksum .v4 zeroed ip (ip + 20)))) ip := by
  have bound : loadBe16 buf (ip + 2) < 65536 := (rteCpuToBe16 (load 2 buf (ip + 2))).isLt
  have isPayload : ipPayloadLen .v4 zeroed ip = loadBe16 buf (ip + 2) - 20 := by
    have same : loadBe16 zeroed (ip + 2) = loadBe16 buf (ip + 2) := by
      rw [isZeroed]
      unfold loadBe16
      rw [load_store_of_le (by omega), load_store_of_le (by omega)]
    unfold ipPayloadLen
    dsimp only
    rw [same]
    omega
  obtain ⟨rest, isRest⟩ := Nat.exists_eq_add_of_le
    (show 2 * half + 2 ≤ loadBe16 buf (ip + 2) - 20 by omega)
  rw [Nat.add_assoc] at isRest
  have isPseudo : pseudoHeader zeroed ip (2 * half + (2 + rest)) =
      pseudoHeader buf ip (2 * half + (2 + rest)) := by
    rw [isZeroed, pseudoHeader_store _ (.inr (by omega)), pseudoHeader_store _ (.inl rfl)]
  have isSum : wordSum (slice zeroed (ip + 20) (2 * half + (2 + rest))) =
      wordSum (slice buf (ip + 20) (2 * half)) +
        (0 + wordSum (slice buf (ip + 20 + 2 * half + 2) rest)) := by
    rw [isZeroed, wordSum_slice_store, slice_store_of_apart (.inr (by simp)),
      slice_store_of_apart (.inr (by simp; omega))]
    rfl
  have small : wordSum (slice zeroed (ip + 20) (2 * half + (2 + rest))) +
      wordSum (pseudoHeader zeroed ip (2 * half + (2 + rest))) < 4294901760 := by
    have data := wordSum_le (slice zeroed (ip + 20) (2 * half + (2 + rest)))
    have header := wordSum_le (pseudoHeader zeroed ip (2 * half + (2 + rest)))
    simp only [pseudoHeader, length_append, length_slice, length_bytesOf, length_cons,
      length_nil] at data header
    unfold pseudoHeader
    omega
  have parts : fold (wordSum (slice zeroed (ip + 20) (2 * half + (2 + rest))) +
      wordSum (pseudoHeader zeroed ip (2 * half + (2 + rest))) +
        (ipUdptcpCksum .v4 zeroed ip (ip + 20)).toNat) = 0xFFFF := by
    unfold ipUdptcpCksum
    rw [isPayload, isRest]
    exact fold_add_parts (isPseudo ▸ wordSum_pseudoHeader_pos isProto _) small rfl
  rw [isSum, isPseudo] at parts
  unfold L4Verifies ipv4HdrLen loadBe16
  rw [store_of_lt (by omega), load_store_of_le (by omega)]
  show fold (wordSum (pseudoHeader _ _ (loadBe16 buf (ip + 2) - ipv4HdrLen buf ip) ++
    slice _ (ip + ipv4HdrLen buf ip) (loadBe16 buf (ip + 2) - ipv4HdrLen buf ip))) = _
  rw [plain, isRest, pseudoHeader_store _ (.inr (by omega)),
    wordSum_append (by simp [pseudoHeader]), wordSum_slice_store, ← parts]
  congr 1
  omega

theorem SentRight.of_plain (offloads : Offloads pkt)
    (isWhole : IsWholeL4 pkt.buf (pgUtilsGetL3 pkt))
    (plain : ipv4HdrLen pkt.buf (pgUtilsGetL3 pkt) = 20) : SentRight pkt (noOffloadPkt pkt) := by
  have whole := isWhole.whole
  have isProto : pkt.buf (pgUtilsGetL3 pkt + 9) ≠ 0#8 := by
    rcases offloads.2.2 with isTcp | isUdp
    · simp [isTcp]
    · simp [isUdp]
  have isPlace : l4Cksum pkt = fixedCksum pkt := by rw [l4Cksum, plain, fixedCksum]
  rw [noOffloadPkt_eq offloads]
  refine ⟨?_, rfl, fun place apart => store_of_apart ?_⟩
  · obtain ⟨half, isHalf⟩ := cksumOffset_even (pkt.buf (pgUtilsGetL3 pkt + 9))
    rw [plain, isHalf] at whole
    have isField : fixedCksum pkt = pgUtilsGetL3 pkt + 20 + 2 * half := by rw [fixedCksum, isHalf]
    rw [isField]
    exact verifies_store isProto plain whole (by rw [zeroedCksums, isField])
  · rwa [length_bytesOf, ← isPlace]

/-- The bytes at the fixed place hold what is written there. -/
def AlreadyWritten (pkt : Mbuf) : Prop :=
  load 2 pkt.buf (fixedCksum pkt) = softwareCksum pkt

/-- Behind a longer header the checksum is written among other bytes. -/
theorem sentRight_iff (offloads : Offloads pkt) (isWhole : IsWholeL4 pkt.buf (pgUtilsGetL3 pkt)) :
    SentRight pkt (noOffloadPkt pkt) ↔ ipv4HdrLen pkt.buf (pgUtilsGetL3 pkt) = 20 ∨
      L4Verifies pkt.buf (pgUtilsGetL3 pkt) ∧ AlreadyWritten pkt := by
  by_cases plain : ipv4HdrLen pkt.buf (pgUtilsGetL3 pkt) = 20
  · exact ⟨fun _ => .inl plain, fun _ => .of_plain offloads isWhole plain⟩
  have behind : fixedCksum pkt + 2 ≤ l4Cksum pkt := by
    have long := isWhole.ihl
    have words : ∃ ihl, ipv4HdrLen pkt.buf (pgUtilsGetL3 pkt) = 4 * ihl := ⟨_, rfl⟩
    unfold fixedCksum l4Cksum
    omega
  have unchanged : AlreadyWritten pkt → noOffloadPkt pkt = pkt := by
    intro written
    rw [noOffloadPkt_eq offloads, ← written, store_load]
  constructor
  · intro right
    have written : AlreadyWritten pkt := by
      refine load_eq_iff.mpr (fun place inside => ?_)
      rw [← right.same _ (.inl (by omega)), noOffloadPkt_eq offloads]
      exact store_add (getElem?_bytesOf _ inside)
    have verifies := right.verifies
    rw [unchanged written] at verifies
    exact .inr ⟨verifies, written⟩
  · rintro (isPlain | ⟨verifies, written⟩)
    · exact absurd isPlain plain
    · rw [unchanged written]
      exact ⟨verifies, rfl, fun _ _ => rfl⟩

end Packet

/-- A UDP packet behind an IPv4 header with one word of options. -/
def optionsPkt : Mbuf :=
  { Mbuf.zero with
    buf := store (fun _ => 0#8) 12 [8#8, 0#8, 0x46#8, 0#8, 0#8, 32#8, 0#8, 0#8, 0#8, 0#8, 64, 17#8]
    l2Len := 14
    olFlags := cksumFlags }

/-- A UDP packet without options, and then such packets with options. -/
def mixedUdp (i : Nat) : Mbuf :=
  if i = 0 then
    { optionsPkt with buf := store (store optionsPkt.buf 14 [0x45#8]) 17 [28#8] }
  else
    optionsPkt

end PacketGraph
