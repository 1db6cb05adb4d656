import PacketGraph.Lib.Bytes

namespace PacketGraph

open Bytes

/-!
# Packet buffers

A `struct rte_mbuf` of one segment is a memory with a window on it: the data
starts at `dataOff` and has `dataLen` bytes.  Reads through a pointer may go
past the window and then see whatever the memory holds.  Addresses are offsets
from the start of the buffer, and the machine is little-endian.

The functions of DPDK do what its documentation says.  The memory of a clone is
that of its original, which nothing modelled here tells from a copy.
-/

/-- The fields of a `struct rte_mbuf` that bricks use. -/
structure Mbuf where
  buf : Memory
  bufLen : Nat
  dataOff : Nat
  dataLen : Nat
  pktLen : Nat
  l2Len : Nat
  l3Len : Nat
  l2Type : BitVec 4
  olFlags : BitVec 64
  udata64 : BitVec 64
  /-- The two bytes that `((uint16_t *)pkt)[0]` reads. -/
  addrBytes : BitVec 16
  /-- The first byte that `dst_key_ptr` points to. -/
  dstKey : BitVec 8

namespace Mbuf

/-- A packet of zeroed memory. -/
def zero : Mbuf where
  buf := fun _ => 0#8
  bufLen := 0
  dataOff := 0
  dataLen := 0
  pktLen := 0
  l2Len := 0
  l3Len := 0
  l2Type := 0#4
  olFlags := 0#64
  udata64 := 0#64
  addrBytes := 0#16
  dstKey := 0#8

/-- The memory seen from the data pointer. -/
def frame (pkt : Mbuf) : Nat → BitVec 8 :=
  fun offset => pkt.buf (pkt.dataOff + offset)

/-- The bytes of the data. -/
def data (pkt : Mbuf) : List (BitVec 8) :=
  slice pkt.buf pkt.dataOff pkt.dataLen

end Mbuf

/-- `RTE_PKTMBUF_HEADROOM`. -/
def pktmbufHeadroom : Nat :=
  128

/-- `rte_pktmbuf_reset`: no data behind the headroom, and no metadata. -/
def rtePktmbufReset (pkt : Mbuf) : Mbuf :=
  { pkt with
    dataOff := min pktmbufHeadroom pkt.bufLen
    dataLen := 0
    pktLen := 0
    l2Len := 0
    l3Len := 0
    l2Type := 0#4
    olFlags := 0#64 }

/-- Move the data pointer back, if there is enough headroom. -/
def rtePktmbufPrepend (pkt : Mbuf) (len : Nat) : Option Mbuf :=
  if pkt.dataOff < len then
    none
  else
    some { pkt with
        dataOff := pkt.dataOff - len
        dataLen := pkt.dataLen + len
        pktLen := pkt.pktLen + len }

/-- Remove bytes at the start of the data, if there are enough of them. -/
def rtePktmbufAdj (pkt : Mbuf) (len : Nat) : Option Mbuf :=
  if pkt.dataLen < len then
    none
  else
    some { pkt with
        dataOff := pkt.dataOff + len
        dataLen := pkt.dataLen - len
        pktLen := pkt.pktLen - len }

/-- Add bytes behind the data, if the buffer has room for them. -/
def rtePktmbufAppend (pkt : Mbuf) (len : Nat) : Option Mbuf :=
  if pkt.bufLen < pkt.dataOff + pkt.dataLen + len then
    none
  else
    some { pkt with dataLen := pkt.dataLen + len, pktLen := pkt.pktLen + len }

/-- `IND_ATTACHED_MBUF`. -/
def indAttachedMbuf : BitVec 64 :=
  1#64 <<< 62

/--
A clone of a packet: it shares the memory and copies the metadata, except for
the user data of the buffer it is made from.
-/
def rtePktmbufClone (pkt : Mbuf) (udata64 : BitVec 64) : Mbuf :=
  { pkt with olFlags := pkt.olFlags ||| indAttachedMbuf, udata64 := udata64 }

/-- `PG_BE_ETHER_TYPE_IPv4`. -/
def beEtherTypeIpv4 : BitVec 16 :=
  0x0008#16

/-- `PG_BE_ETHER_TYPE_IPv6`. -/
def beEtherTypeIpv6 : BitVec 16 :=
  0xDD86#16

/-- `PG_BE_ETHER_TYPE_VLAN`. -/
def beEtherTypeVlan : BitVec 16 :=
  0x0081#16

/-- `sizeof(struct ether_hdr)`. -/
def sizeofEtherHdr : Nat :=
  14

/-- The start of the layer 3 header. -/
def pgUtilsGetL3 (pkt : Mbuf) : Nat :=
  pkt.dataOff + pkt.l2Len

/-- The ether type, just before the layer 3 header. -/
def pgUtilsGetEtherType (pkt : Mbuf) : BitVec 16 :=
  load 2 pkt.buf (pkt.dataOff + pkt.l2Len - 2)

/-- `pg_utils_guess_l2`, with the `RTE_PTYPE_L2_ETHER` types of DPDK. -/
def pgUtilsGuessL2 (pkt : Mbuf) : Mbuf :=
  if load 2 pkt.buf (pkt.dataOff + 12) = beEtherTypeVlan then
    { pkt with l2Type := 0x1#4 ||| 0x6#4, l2Len := sizeofEtherHdr + 4 }
  else
    { pkt with l2Type := 0x1#4, l2Len := sizeofEtherHdr }

/--
The loop of `pg_utils_get_ipv6_l4`, giving the first header that is no
extension and its address.  No result stands for the `-1` of the eighth round.
-/
def ipv6ExtensionsFrom (buf : Memory) :
    Nat → BitVec 8 → Nat → Option (BitVec 8 × Nat)
  | 0, _, _ => none
  | rounds + 1, nextHeader, nextData =>
    if nextHeader = 0x3C#8 ∨ nextHeader = 0x00#8 ∨ nextHeader = 0x2B#8 ∨ nextHeader = 0x88#8 then
      ipv6ExtensionsFrom buf rounds (buf nextData) (nextData + ((buf (nextData + 1)).toNat + 1) * 8)
    else if nextHeader = 0x2C#8 then
      ipv6ExtensionsFrom buf rounds (buf nextData) (nextData + 8)
    else if nextHeader = 0x33#8 then
      ipv6ExtensionsFrom buf rounds (buf nextData) (nextData + ((buf (nextData + 1)).toNat + 2) * 4)
    else
      some (nextHeader, nextData)

/-- The type and address of the layer 4 header of an IPv6 packet. -/
def pgUtilsGetIpv6L4 (pkt : Mbuf) : Option (BitVec 8 × Nat) :=
  ipv6ExtensionsFrom pkt.buf 7 (pkt.buf (pgUtilsGetL3 pkt + 6)) (pgUtilsGetL3 pkt + 40)

/-- `pg_utils_get_ipv6_l3_len`. -/
def pgUtilsGetIpv6L3Len (pkt : Mbuf) : Nat :=
  match pgUtilsGetIpv6L4 pkt with
  | none => 39
  | some (_, payload) => payload - pgUtilsGetL3 pkt

end PacketGraph
