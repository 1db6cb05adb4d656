import PacketGraph.Packet.Mbuf
import PacketGraph.Lib.Checksum

namespace PacketGraph

open BitVec Bytes InternetChecksum

/-!
# IP, UDP and VXLAN headers

The headers that a vtep builds, as the bytes they have in memory, and the
checksums over them.  The two versions of the vtep are compiled from one file
with `IP_VERSION` defined as 4 or 6, which is an argument here.
-/

/-- `IP_VERSION`. -/
inductive IpVersion where
  | v4
  | v6
  deriving Repr, DecidableEq

/-- The number of bytes of an address. -/
def ipSize : IpVersion → Nat
  | .v4 => 4
  | .v6 => 16

/-- An address, as its bytes lie in memory. -/
abbrev Ip (version : IpVersion) := BitVec (8 * ipSize version)

/-- `sizeof(struct ip_hdr)`. -/
def sizeofIpHdr : IpVersion → Nat
  | .v4 => 20
  | .v6 => 40

/-- `sizeof(struct headers)`: an IP, a UDP and a VXLAN header. -/
def sizeofHeaders (version : IpVersion) : Nat :=
  sizeofIpHdr version + 8 + 8

/-- `HEADER_LENGTH`. -/
def headerLength (version : IpVersion) : Nat :=
  sizeofHeaders version + sizeofEtherHdr

/-- `pg_is_multicast_ip`. -/
def pgIsMulticastIp {version : IpVersion} (ip : Ip version) : Bool :=
  match version with
  | .v4 => decide (224 ≤ (ip.extractLsb' 0 8).toNat ∧ (ip.extractLsb' 0 8).toNat ≤ 239)
  | .v6 => ip.extractLsb' 0 8 = 0xFF#8

/-- `pg_multicast_get_dst_addr`. -/
def pgMulticastGetDstAddr {version : IpVersion} (ip : Ip version) : BitVec 48 :=
  match version with
  | .v4 =>
    ip.extractLsb' 24 8 ++ ip.extractLsb' 16 8 ++
      (ip.extractLsb' 8 8 &&& 0x7F#8) ++ 0x5E#8 ++ 0x00#8 ++ 0x01#8
  | .v6 => ip.extractLsb' 96 32 ++ 0x33#8 ++ 0x33#8

/-- `rte_cpu_to_be_16`. -/
def rteCpuToBe16 (value : BitVec 16) : BitVec 16 :=
  value.extractLsb' 0 8 ++ value.extractLsb' 8 8

theorem rteCpuToBe16_rteCpuToBe16 (value : BitVec 16) :
    rteCpuToBe16 (rteCpuToBe16 value) = value := by
  unfold rteCpuToBe16
  refine eq_of_getLsbD_eq (fun bit inside => ?_)
  simp only [getLsbD_append, getLsbD_extractLsb']
  by_cases low : bit < 8
  · simp [low]
  · have high : bit - 8 < 8 := by omega
    have place : 8 + (bit - 8) = bit := by omega
    simp [low, high, place]

/-- `rte_cpu_to_be_32`. -/
def rteCpuToBe32 (value : BitVec 32) : BitVec 32 :=
  value.extractLsb' 0 8 ++ value.extractLsb' 8 8 ++ value.extractLsb' 16 8 ++ value.extractLsb' 24 8

/-- The number that two bytes in network order stand for. -/
def loadBe16 (buf : Memory) (address : Nat) : Nat :=
  (rteCpuToBe16 (load 2 buf address)).toNat

/-- Where some fields of an IP header start. -/
structure IpLayout where
  proto : Nat
  srcAddr : Nat
  dstAddr : Nat

/-- The layout of `struct ipv4_hdr` and of `struct ipv6_hdr`. -/
def ipLayout : IpVersion → IpLayout
  | .v4 => { proto := 9, srcAddr := 12, dstAddr := 16 }
  | .v6 => { proto := 6, srcAddr := 8, dstAddr := 24 }

/-- `__rte_raw_cksum_reduce` of the sum of some words. -/
def rawCksum (bytes : List (BitVec 8)) : Nat :=
  fold (wordSum bytes)

/--
`rte_ipv4_phdr_cksum` and `rte_ipv6_phdr_cksum`: the addresses, the protocol
and the length of the datagram.
-/
def phdrCksum (version : IpVersion) (buf : Memory) (ip l4Len : Nat) : Nat :=
  let layout := ipLayout version
  rawCksum (slice buf (ip + layout.srcAddr) (2 * ipSize version) ++
      [0#8, buf (ip + layout.proto)] ++ bytesOf 2 (rteCpuToBe16 (BitVec.ofNat 16 l4Len)))

/--
How many bytes the IP header says to follow it, as a `uint32_t` that wraps if
`total_length` is shorter than the header.
-/
def ipPayloadLen (version : IpVersion) (buf : Memory) (ip : Nat) : Nat :=
  match version with
  | .v4 => (2 ^ 32 + loadBe16 buf (ip + 2) - 20) % 2 ^ 32
  | .v6 => loadBe16 buf (ip + 4)

/-- `rte_ipv4_udptcp_cksum` and `rte_ipv6_udptcp_cksum`. -/
def ipUdptcpCksum (version : IpVersion) (buf : Memory) (ip l4 : Nat) : BitVec 16 :=
  let l4Len := ipPayloadLen version buf ip
  let sum := addCarries (rawCksum (slice buf l4 l4Len) + phdrCksum version buf ip l4Len)
  let cksum := ~~~(BitVec.ofNat 16 sum)
  if cksum = 0#16 then 0xFFFF#16 else cksum

/-- `pg_ipv4_init_cksum`: the sum of the fields that never change. -/
def pgIpv4InitCksum (srcIp : BitVec 32) : Nat :=
  wordSum ([0x45#8, 0#8, 0#8, 0#8, 0#8, 0#8, 0#8, 0#8, 64#8, 17#8, 0#8, 0#8] ++
      bytesOf 4 srcIp ++ [0#8, 0#8, 0#8, 0#8])

/-- `pg_ipv4_udp_cksum`: the checksum of a whole header. -/
def pgIpv4UdpCksum (baseSumIpv4 : Nat) (pktLen id : BitVec 16) (dstIp : BitVec 32) : BitVec 16 :=
  let sum :=
    BitVec.ofNat 16 (fold (baseSumIpv4 + pktLen.toNat + id.toNat +
          (dstIp.extractLsb' 0 16).toNat + (dstIp.extractLsb' 16 16).toNat))
  if sum = 0xFFFF#16 then 0xFFFF#16 else ~~~sum

/-- `ip4_build`, after the packet id was incremented. -/
def ip4Build (sum : Nat) (packetId : BitVec 16) (srcIp dstIp : BitVec 32) (datagramLen : BitVec 16)
    : List (BitVec 8) :=
  let totalLength := rteCpuToBe16 datagramLen
  [0x45#8, 0#8] ++ bytesOf 2 totalLength ++ bytesOf 2 packetId ++ [0#8, 0#8, 64#8, 17#8] ++
    bytesOf 2 (pgIpv4UdpCksum sum totalLength packetId dstIp) ++ bytesOf 4 srcIp ++ bytesOf 4 dstIp

/-- `ip6_build`. -/
def ip6Build (srcIp dstIp : BitVec 128) (pktLen : BitVec 16) : List (BitVec 8) :=
  [0x60#8, 0#8, 0#8, 0#8] ++ bytesOf 2 (rteCpuToBe16 pktLen) ++
    [17#8, 0xFF#8] ++ bytesOf 16 srcIp ++ bytesOf 16 dstIp

/-- `ethernet_build`. -/
def ethernetBuild (version : IpVersion) (srcMac dstMac : BitVec 48) : List (BitVec 8) :=
  bytesOf 6 dstMac ++ bytesOf 6 srcMac ++ bytesOf 2 (match version with
      | .v4 => beEtherTypeIpv4
      | .v6 => beEtherTypeIpv6)

/-- `PG_VTEP_BE_I_FLAG`. -/
def pgVtepBeIFlag : BitVec 32 :=
  0x00000008#32

/-- `vxlan_build`. -/
def vxlanBuild (vni : BitVec 32) : List (BitVec 8) :=
  bytesOf 4 pgVtepBeIFlag ++ bytesOf 4 vni

/-- `src_port_compute`. -/
def srcPortCompute (seed : BitVec 16) : BitVec 16 :=
  (seed &&& 16383#16) + 49152#16

/-- `udp_build`, whose checksum is zero. -/
def udpBuild (udpDstPort datagramLen seed : BitVec 16) : List (BitVec 8) :=
  bytesOf 2 (rteCpuToBe16 (srcPortCompute seed)) ++ bytesOf 2 udpDstPort ++
    bytesOf 2 (rteCpuToBe16 datagramLen) ++ [0#8, 0#8]

/-- `udp_overhead`. -/
def udpOverhead : Nat :=
  8 + 8

/-- `ip_overhead`, which takes an IPv4 header for both versions. -/
def ipOverhead : Nat :=
  udpOverhead + 20

end PacketGraph
