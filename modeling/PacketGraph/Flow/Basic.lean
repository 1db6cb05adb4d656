import PacketGraph.Brick.Link
import PacketGraph.MacTable.Basic

namespace PacketGraph

open BitScan BitVec

/-!
# Bursts between bricks

A burst hands an array of packets and a mask of its used places to the brick
behind a link.  What a brick sends while it handles a burst is a list of such
calls.  The neighbours are an environment that answers each call with a result
code.  A switch and a vtep keep state across a call, and what a neighbour does
to it by bursting back before it returns is a part of their environments.  For
the other bricks the neighbours do not burst back before they return.
-/

/-- The bytes of a packet from its data pointer on. -/
abbrev Frame := Nat → BitVec 8

/-- The eight bytes that reading a `union pg_mac` at an offset takes. -/
def macAt (frame : Frame) (offset : Nat) : Mac :=
  frame (offset + 7) ++ frame (offset + 6) ++ frame (offset + 5) ++
    frame (offset + 4) ++ frame (offset + 3) ++ frame (offset + 2) ++
    frame (offset + 1) ++ frame offset

/-- `is_multicast_ether_addr` on the address at an offset. -/
def isMulticastEtherAddr (frame : Frame) (offset : Nat) : Bool :=
  (frame offset).getLsbD 0

/-- Offset of `d_addr` in an Ethernet header. -/
def dAddr : Nat :=
  0

/-- Offset of `s_addr` in an Ethernet header. -/
def sAddr : Nat :=
  6

/-- `PG_MAX_PKTS_BURST`. -/
def pgMaxPktsBurst : Nat :=
  64

/-- `pg_mask_firsts`, on a `uint8_t`. -/
def pgMaskFirsts (count : Nat) : BitVec 64 :=
  if 64 ≤ count % 256 then 0xFFFFFFFFFFFFFFFF#64 else (1#64 <<< (count % 256)) - 1#64

/-- The mask of the first packets of a burst has their positions. -/
theorem lowBits_pgMaskFirsts {count : Nat} (inBurst : count ≤ pgMaxPktsBurst) :
    lowBits (pgMaskFirsts count) = List.range count := by
  unfold pgMaxPktsBurst at inBurst
  have small : count % 256 = count := Nat.mod_eq_of_lt (by omega)
  refine lowBits_eq_range inBurst (fun position inside => ?_)
  unfold pgMaskFirsts
  rw [small]
  split
  · have isFull : count = 64 := by omega
    have allSet : (0xFFFFFFFFFFFFFFFF#64) = BitVec.ofNat 64 (2 ^ 64 - 1) := rfl
    rw [allSet, getLsbD_ofNat, Nat.testBit_two_pow_sub_one, isFull]
    simp [inside]
  · have power : 2 ^ count < 2 ^ 64 := Nat.pow_lt_pow_right (by decide) (by omega)
    have positive : 0 < 2 ^ count := Nat.two_pow_pos count
    have isNumber : (1#64 <<< count) - 1#64 = BitVec.ofNat 64 (2 ^ count - 1) := by
      apply eq_of_toNat_eq
      simp only [toNat_sub, toNat_shiftLeft, toNat_ofNat, Nat.shiftLeft_eq]
      omega
    rw [isNumber, getLsbD_ofNat, Nat.testBit_two_pow_sub_one]
    simp [inside]

/-- The result codes of the neighbours' bursts, in the order of the calls. -/
abbrev Answers := Nat → Int

/-- The answers left after some calls. -/
def Answers.after (answers : Answers) (calls : Nat) : Answers :=
  fun call => answers (calls + call)

/--
One call of `pg_brick_burst` on a neighbour: the port of the sender it goes
out of, and the arguments of the call.
-/
structure Send (ι : Type) where
  side : Side
  index : Nat
  target : ι
  fromSide : Side
  edgeIndex : Nat
  mask : BitVec 64
  deriving Repr, DecidableEq

end PacketGraph
