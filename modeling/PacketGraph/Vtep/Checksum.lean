import PacketGraph.Vtep.Ops

namespace PacketGraph

open Bytes InternetChecksum List

/-!
# The checksum of outer IPv4 headers

A vtep sums the fields that all its headers share when it is made.  For each
packet it adds the remaining ones and folds the sum, so that the header itself
is never read again.  The sum of all words is small enough for 32 bits, and
folding it twice leaves no carry.
-/

/-- The header of `ip4_build` with any checksum. -/
def ip4Fields (packetId : BitVec 16) (srcIp dstIp : BitVec 32) (totalLength cksum : BitVec 16)
    : List (BitVec 8) :=
  ([0x45#8, 0#8] ++ bytesOf 2 totalLength ++ bytesOf 2 packetId ++ [0#8, 0#8, 64#8, 17#8]) ++
    (bytesOf 2 cksum ++ (bytesOf 4 srcIp ++ bytesOf 4 dstIp))

theorem ip4Build_eq (sum : Nat) (packetId : BitVec 16) (srcIp dstIp : BitVec 32)
    (datagramLen : BitVec 16) :
    ip4Build sum packetId srcIp dstIp datagramLen =
      ip4Fields packetId srcIp dstIp (rteCpuToBe16 datagramLen)
        (pgIpv4UdpCksum sum (rteCpuToBe16 datagramLen) packetId dstIp) := by
  unfold ip4Build ip4Fields
  simp only [append_assoc]

variable (packetId : BitVec 16) (srcIp dstIp : BitVec 32) (totalLength cksum : BitVec 16)

@[simp] theorem length_ip4Fields :
    (ip4Fields packetId srcIp dstIp totalLength cksum).length = 20 := by
  simp [ip4Fields]

variable (memory : Memory) (address : Nat)

/-- A header in memory. -/
theorem slice_ip4Fields (packetId : BitVec 16) (srcIp dstIp : BitVec 32)
    (totalLength cksum : BitVec 16) :
    slice (store memory address (ip4Fields packetId srcIp dstIp totalLength cksum)) address 20 =
      ip4Fields packetId srcIp dstIp totalLength cksum :=
  slice_store (length_ip4Fields ..)

/-- The sum of the two words of an address. -/
def addressSum (ip : BitVec 32) : Nat :=
  (ip.extractLsb' 0 16).toNat + (ip.extractLsb' 16 16).toNat

theorem addressSum_le (ip : BitVec 32) : addressSum ip ≤ 131070 := by
  have low := (ip.extractLsb' 0 16).isLt
  have high := (ip.extractLsb' 16 16).isLt
  unfold addressSum
  omega

theorem pgIpv4InitCksum_eq : pgIpv4InitCksum srcIp = 4485 + addressSum srcIp := by
  unfold pgIpv4InitCksum
  simp only [cons_append, nil_append, wordSum, wordSum_bytesOf_four]
  unfold addressSum
  simp
  omega

/-- The sum of the words of a header. -/
theorem wordSum_ip4Fields :
    wordSum (ip4Fields packetId srcIp dstIp totalLength cksum) =
      pgIpv4InitCksum srcIp + totalLength.toNat + packetId.toNat +
        addressSum dstIp + cksum.toNat := by
  have first : wordSum (ip4Fields packetId srcIp dstIp totalLength cksum) = 69 + wordSum
            (bytesOf 2 totalLength ++ (bytesOf 2 packetId ++ ([0#8, 0#8, 64#8, 17#8] ++
                  (bytesOf 2 cksum ++ (bytesOf 4 srcIp ++ (bytesOf 4 dstIp ++ [])))))) := by
    unfold ip4Fields
    simp only [append_assoc, append_nil, cons_append, nil_append, wordSum]
    simp
  have middle (rest : List (BitVec 8)) :
      wordSum ([0#8, 0#8, 64#8, 17#8] ++ rest) = 4416 + wordSum rest := by
    show 0 + 256 * 0 + (64 + 256 * 17 + wordSum rest) = _
    omega
  rw [first, wordSum_bytesOf_two, wordSum_bytesOf_two, middle,
    wordSum_bytesOf_two, wordSum_bytesOf_four, wordSum_bytesOf_four, pgIpv4InitCksum_eq]
  show 69 + (totalLength.toNat + (packetId.toNat + (4416 + (cksum.toNat +
    (addressSum srcIp + (addressSum dstIp + 0)))))) = _
  omega

/-- All words of a header together, its checksum apart. -/
def headerSum (packetId : BitVec 16) (srcIp dstIp : BitVec 32) (totalLength : BitVec 16) : Nat :=
  pgIpv4InitCksum srcIp + totalLength.toNat + packetId.toNat + addressSum dstIp

/-- The sum is positive and far from the end of 32 bits. -/
theorem headerSum_bounds (totalLength : BitVec 16) :
    4485 ≤ headerSum packetId srcIp dstIp totalLength ∧
      headerSum packetId srcIp dstIp totalLength < 400000 := by
  have length := totalLength.isLt
  have id := packetId.isLt
  have source := addressSum_le srcIp
  have destination := addressSum_le dstIp
  unfold headerSum
  rw [pgIpv4InitCksum_eq]
  omega

/-- The complement of a folded sum, which is never zero. -/
def foldedComplement (sum : Nat) : BitVec 16 :=
  let folded := BitVec.ofNat 16 (fold sum)
  if folded = 0xFFFF#16 then 0xFFFF#16 else ~~~folded

/-- With its folded complement a sum folds to `0xFFFF`. -/
theorem fold_add_foldedComplement {sum : Nat} (positive : 0 < sum) (small : sum < 4294901760) :
    fold (sum + (foldedComplement sum).toNat) = 0xFFFF := by
  have folded := fold_of_pos positive (by omega)
  have value : (BitVec.ofNat 16 (fold sum)).toNat = fold sum := by
    rw [BitVec.toNat_ofNat]
    omega
  have complement : (foldedComplement sum).toNat =
        if fold sum = 65535 then 65535 else 65535 - fold sum := by
    unfold foldedComplement
    dsimp only
    by_cases full : fold sum = 65535
    · rw [if_pos full, if_pos (by rw [full])]
      rfl
    · have other : BitVec.ofNat 16 (fold sum) ≠ 0xFFFF#16 := by
        intro same
        have isFull := congrArg BitVec.toNat same
        rw [value] at isFull
        exact full isFull
      rw [if_neg full, if_neg other, BitVec.toNat_not, value]
  rw [complement]
  split
  · rw [fold_of_pos (by omega) (by omega)]
    omega
  · rw [fold_of_pos (by omega) (by omega)]
    omega

/-- `pg_ipv4_udp_cksum` folds the sum of the whole header. -/
theorem pgIpv4UdpCksum_eq (totalLength : BitVec 16) :
    pgIpv4UdpCksum (pgIpv4InitCksum srcIp) totalLength packetId dstIp =
      foldedComplement (headerSum packetId srcIp dstIp totalLength) := by
  unfold pgIpv4UdpCksum foldedComplement headerSum addressSum
  dsimp only
  rw [← Nat.add_assoc]

/-- `rte_ipv4_cksum` folds the words of the header in memory. -/
theorem rteIpv4Cksum_eq :
    rteIpv4Cksum memory address = foldedComplement (wordSum (slice memory address 20)) := by
  unfold rteIpv4Cksum rteRawCksum foldedComplement
  generalize BitVec.ofNat 16 (fold (wordSum (slice memory address 20))) = folded
  dsimp only
  split
  · rename_i isFull
    exact isFull
  · rfl

theorem rteIpv4Cksum_ip4Fields (packetId : BitVec 16) (srcIp dstIp : BitVec 32)
    (totalLength : BitVec 16) :
    rteIpv4Cksum (store memory address (ip4Fields packetId srcIp dstIp totalLength 0#16)) address =
      foldedComplement (headerSum packetId srcIp dstIp totalLength) := by
  rw [rteIpv4Cksum_eq, slice_ip4Fields, wordSum_ip4Fields,
    BitVec.toNat_zero, Nat.add_zero, headerSum]

/--
The checksum that `ip4_build` stores is the one of the finished header with a
zeroed checksum, and with it the words of the header fold to `0xFFFF`.  The
sum it is made from has no carry beyond 32 bits.
-/
theorem ip4_build_cksum_full (memory : Memory) (address : Nat) (srcIp dstIp : BitVec 32)
    (packetId datagramLen : BitVec 16) :
    let header := ip4Build (pgIpv4InitCksum srcIp) packetId srcIp dstIp datagramLen
    let built := store memory address header
    load 2 built (address + 10) = rteIpv4Cksum (store built (address + 10) [0#8, 0#8]) address ∧
      fold (wordSum (slice built address 20)) = 0xFFFF ∧
      pgIpv4InitCksum srcIp + (rteCpuToBe16 datagramLen).toNat + packetId.toNat + addressSum dstIp <
        2 ^ 32 := by
  intro header built
  let length := rteCpuToBe16 datagramLen
  let sum := headerSum packetId srcIp dstIp length
  have isHeader : header = ip4Fields packetId srcIp dstIp length (foldedComplement sum) := by
    show ip4Build (pgIpv4InitCksum srcIp) packetId srcIp dstIp datagramLen = _
    rw [ip4Build_eq, pgIpv4UdpCksum_eq]
  obtain ⟨low, high⟩ := headerSum_bounds packetId srcIp dstIp length
  have zeroed : store built (address + 10) [0#8, 0#8] = store memory address
          (ip4Fields packetId srcIp dstIp length 0#16) := by
    have zero : [0#8, 0#8] = bytesOf 2 0#16 := by decide
    show store (store memory address header) _ _ = _
    rw [isHeader, zero]
    exact store_store_within (by simp) (by simp)
  refine ⟨?_, ?_, ?_⟩
  · rw [zeroed, rteIpv4Cksum_ip4Fields]
    show load 2 (store memory address header) _ = _
    rw [isHeader]
    exact load_store_field rfl (by simp)
  · show fold (wordSum (slice (store memory address header) address 20)) = _
    rw [isHeader, slice_ip4Fields, wordSum_ip4Fields]
    show fold (sum + (foldedComplement sum).toNat) = _
    exact fold_add_foldedComplement (Nat.lt_of_lt_of_le (by decide) low)
      (Nat.lt_trans high (by decide))
  · exact Nat.lt_trans high (by decide)

end PacketGraph
