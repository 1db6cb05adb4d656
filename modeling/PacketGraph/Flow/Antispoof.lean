import PacketGraph.Flow.Bricks
import PacketGraph.Lib.PartialMemory

namespace PacketGraph

open BitScan Bytes List PartialMemory

/-!
# What an antispoof brick decides a packet on

An antispoof brick looks at the fields of a packet without looking at its
length.  A field that lies behind the end of the data is read from the rest of
the buffer, which belongs to no packet.  The verdict on a packet is a verdict
on its data when the data surely passes the check, or when no bytes behind it
can make it pass.
-/

variable {ι : Type}

section Frame

/-- The bytes around a packet, by their place behind the start of the data. -/
def frameOf (pkt : Mbuf) : Int → BitVec 8 :=
  fun place => pkt.buf ((pkt.dataOff : Int) + place).toNat

/--
A packet carries some data behind a layer 2 header of some length.  Its ether
type is read at an address of the buffer.
-/
structure CarriesData (data : List (BitVec 8)) (l2Len : Nat) (pkt : Mbuf) : Prop where
  data : pkt.data = data
  l2Len : pkt.l2Len = l2Len
  inBuffer : 2 ≤ pkt.dataOff + pkt.l2Len

variable {pkt : Mbuf} {data : List (BitVec 8)} {l2Len : Nat}

variable {address : Nat}

theorem frameOf_eq {place : Int} (isAddress : (address : Int) = pkt.dataOff + place) :
    frameOf pkt place = pkt.buf address := by
  unfold frameOf
  rw [← isAddress, Int.toNat_natCast]

theorem slice_eq_iff_holds {start : Int} {bytes : List (BitVec 8)}
    (isAddress : (address : Int) = pkt.dataOff + start) :
    slice pkt.buf address bytes.length = bytes ↔ Holds (frameOf pkt) start bytes := by
  have same (place : Nat) : frameOf pkt (start + place) = pkt.buf (address + place) :=
    frameOf_eq (by omega)
  constructor
  · intro isSlice offset cell isCell
    obtain ⟨inside, _⟩ := List.getElem?_eq_some_iff.mp isCell
    rw [same]
    rw [← isSlice] at isCell
    simpa [slice, inside] using isCell
  · intro holds
    apply ext_getElem?
    intro place
    by_cases inside : place < bytes.length
    · have isCell : bytes[place]? = some bytes[place] := List.getElem?_eq_getElem inside
      have held := holds place _ isCell
      rw [same] at held
      simp [slice, inside, held]
    · simp [slice, inside]

theorem load_eq_iff_holds {n : Nat} {start : Int} {value : BitVec (8 * n)}
    (isAddress : (address : Int) = pkt.dataOff + start) :
    load n pkt.buf address = value ↔ Holds (frameOf pkt) start (bytesOf n value) := by
  rw [← slice_eq_bytesOf_iff, ← slice_eq_iff_holds isAddress, length_bytesOf]

/-- The frame of a packet has its data. -/
theorem CarriesData.completes (carries : CarriesData data l2Len pkt) :
    Completes (frameOf pkt) (ofList data) := by
  intro place cell isCell
  unfold ofList at isCell
  split at isCell
  · rename_i notNegative
    rw [← carries.data] at isCell
    obtain ⟨inside, _⟩ := List.getElem?_eq_some_iff.mp isCell
    have isAddress : ((pkt.dataOff + place.toNat : Nat) : Int) = pkt.dataOff + place := by omega
    rw [frameOf_eq isAddress]
    have small : place.toNat < pkt.dataLen := by simpa [Mbuf.data] using inside
    simpa [Mbuf.data, slice, small] using isCell
  · exact absurd isCell (by simp)

/-- A packet whose frame is a given memory. -/
def packetOf (data : List (BitVec 8)) (l2Len : Nat) (memory : Int → BitVec 8) : Mbuf :=
  { Mbuf.zero with
    buf := fun address => memory ((address : Int) - 2)
    bufLen := data.length + 2
    dataOff := 2
    dataLen := data.length
    pktLen := data.length
    l2Len := l2Len }

theorem frameOf_packetOf (data : List (BitVec 8)) (l2Len : Nat) (memory : Int → BitVec 8)
    {place : Int} (notBefore : -2 ≤ place) :
    frameOf (packetOf data l2Len memory) place = memory place := by
  have isAddress : (((place + 2).toNat : Nat) : Int) =
        (packetOf data l2Len memory).dataOff + place := by
    show (((place + 2).toNat : Nat) : Int) = (2 : Nat) + place
    omega
  rw [frameOf_eq isAddress]
  show memory ((((place + 2).toNat : Nat) : Int) - 2) = memory place
  congr 1
  omega

/-- Some packet has given data and finds given bytes around it. -/
theorem exists_packet (data : List (BitVec 8)) (l2Len : Nat)
    (view : Known (BitVec 8)) (rest : BitVec 8)
    (extends_data : ∀ place cell, ofList data place = some cell → view place = some cell)
    (notBefore : ∀ place, view place ≠ none → -2 ≤ place) :
    ∃ pkt, CarriesData data l2Len pkt ∧ Completes (frameOf pkt) view ∧
        ∀ place, -2 ≤ place → view place = none → frameOf pkt place = rest := by
  refine ⟨packetOf data l2Len (fill view rest), ⟨?_, rfl, ?_⟩, ?_, ?_⟩
  · apply ext_getElem?
    intro place
    by_cases inside : place < data.length
    · have isCell : data[place]? = some data[place] := List.getElem?_eq_getElem inside
      have isView : view (place : Int) = some data[place] := extends_data _ _ (by simp [ofList])
      have isAddress : ((2 + place : Nat) : Int) - 2 = (place : Int) := by omega
      simp [Mbuf.data, slice, packetOf, inside, fill, isView]
    · simp [Mbuf.data, slice, packetOf, inside]
  · show 2 ≤ 2 + l2Len
    omega
  · intro place cell isView
    rw [frameOf_packetOf _ _ _ (notBefore place (by simp [isView]))]
    exact completes_fill view rest place cell isView
  · intro place late unknown
    rw [frameOf_packetOf _ _ _ late]
    exact fill_of_unknown unknown rest

end Frame

section Check

/-- The ether types that an antispoof brick looks at, as they are sent. -/
def rarpType : List (BitVec 8) :=
  bytesOf 2 0x3580#16

@[inherit_doc rarpType]
def arpType : List (BitVec 8) :=
  bytesOf 2 0x0608#16

@[inherit_doc rarpType]
def ipv6Type : List (BitVec 8) :=
  bytesOf 2 beEtherTypeIpv6

/-- The fields of an ARP packet before its operation code. -/
def arpStart : List (BitVec 8) :=
  [0x00#8, 0x01#8, 0x08#8, 0x00#8, 0x06#8, 0x04#8]

theorem length_arpStart : arpStart.length = 6 :=
  rfl

/-- The link layer option of an allowed neighbor advertisement. -/
def linkLayerOption (state : AntispoofState) : List (BitVec 8) :=
  2#8 :: 1#8 :: bytesOf 6 state.mac

variable (state : AntispoofState)

theorem length_linkLayerOption : (linkLayerOption state).length = 8 := by
  simp [linkLayerOption]

/-- The fields of an ARP packet are those of an allowed address. -/
def ArpAllowed (has : Int → List (BitVec 8) → Prop) (state : AntispoofState) (l3 : Int) : Prop :=
  ∃ ip ∈ state.arps, has l3 arpStart ∧ has (l3 + 8) (bytesOf 6 state.mac) ∧
      has (l3 + 14) (bytesOf 4 ip)

/-- The fields of a neighbor advertisement are those of an allowed address. -/
def NaAllowed (has : Int → List (BitVec 8) → Prop) (state : AntispoofState) (l3 na : Int) : Prop :=
  ∃ ip ∈ state.ndps, has (l3 + 8) (bytesOf 16 ip) ∧ has (na + 8) (bytesOf 16 ip) ∧
      has (na + 24) (linkLayerOption state)

variable {state : AntispoofState} {pkt : Mbuf}

theorem antispoofArp_iff (pkt : Mbuf) :
    antispoofArp state pkt = true ↔ ArpAllowed (Holds (frameOf pkt)) state pkt.l2Len := by
  have start : slice pkt.buf (pgUtilsGetL3 pkt) arpStart.length = arpStart ↔
        Holds (frameOf pkt) pkt.l2Len arpStart :=
    slice_eq_iff_holds (by unfold pgUtilsGetL3; push_cast; omega)
  have mac : load 6 pkt.buf (pgUtilsGetL3 pkt + 8) = state.mac ↔
        Holds (frameOf pkt) (pkt.l2Len + 8) (bytesOf 6 state.mac) :=
    load_eq_iff_holds (by unfold pgUtilsGetL3; push_cast; omega)
  have sender (ip : BitVec 32) : load 4 pkt.buf (pgUtilsGetL3 pkt + 14) = ip ↔
        Holds (frameOf pkt) (pkt.l2Len + 14) (bytesOf 4 ip) :=
    load_eq_iff_holds (by unfold pgUtilsGetL3; push_cast; omega)
  unfold antispoofArp ArpAllowed
  simp only [any_eq_true, Bool.and_eq_true, decide_eq_true_eq, and_assoc]
  refine exists_congr fun ip => and_congr_right fun _ => ?_
  exact and_congr start (and_congr mac (sender ip))

theorem antispoofNdp_of_none (tooMany : pgUtilsGetIpv6L4 pkt = none) :
    antispoofNdp state pkt = false := by
  unfold antispoofNdp
  rw [tooMany]

theorem antispoofNdp_iff {type : BitVec 8} {address : Nat} {na : Int}
    (found : pgUtilsGetIpv6L4 pkt = some (type, address))
    (isAddress : (address : Int) = pkt.dataOff + na) :
    antispoofNdp state pkt = true ↔ type ≠ 0x3A#8 ∨ frameOf pkt na ≠ 0x88#8 ∨
        NaAllowed (Holds (frameOf pkt)) state pkt.l2Len na := by
  have source (ip : BitVec 128) : load 16 pkt.buf (pgUtilsGetL3 pkt + 8) = ip ↔
        Holds (frameOf pkt) (pkt.l2Len + 8) (bytesOf 16 ip) :=
    load_eq_iff_holds (by unfold pgUtilsGetL3; push_cast; omega)
  have target (ip : BitVec 128) : load 16 pkt.buf (address + 8) = ip ↔
        Holds (frameOf pkt) (na + 8) (bytesOf 16 ip) :=
    load_eq_iff_holds (by push_cast; omega)
  have option : (pkt.buf (address + 24) = 2#8 ∧ pkt.buf (address + 25) = 1#8 ∧
          load 6 pkt.buf (address + 26) = state.mac) ↔
        Holds (frameOf pkt) (na + 24) (linkLayerOption state) := by
    have isOption : ((address + 24 : Nat) : Int) = pkt.dataOff + (na + 24) := by omega
    have front : slice pkt.buf (address + 24) 8 = pkt.buf (address + 24) ::
        pkt.buf (address + 25) :: slice pkt.buf (address + 26) 6 := slice_add _ 2 6
    rw [← slice_eq_iff_holds isOption, length_linkLayerOption, front]
    simp only [linkLayerOption, cons.injEq, slice_eq_bytesOf_iff]
  have matched : (((state.ndps.any fun ip => decide (load 16 pkt.buf (pgUtilsGetL3 pkt + 8) = ip) &&
              decide (load 16 pkt.buf (address + 8) = ip)) &&
          decide (pkt.buf (address + 24) = 2#8) &&
          decide (pkt.buf (address + 25) = 1#8) &&
          decide (load 6 pkt.buf (address + 26) = state.mac)) = true) ↔
        NaAllowed (Holds (frameOf pkt)) state pkt.l2Len na := by
    unfold NaAllowed
    simp only [Bool.and_eq_true, any_eq_true, decide_eq_true_eq, and_assoc, source, target]
    rw [option]
    constructor
    · rintro ⟨⟨ip, member, fromHere, toHere⟩, isOption⟩
      exact ⟨ip, member, fromHere, toHere, isOption⟩
    · rintro ⟨ip, member, fromHere, toHere, isOption⟩
      exact ⟨⟨ip, member, fromHere, toHere⟩, isOption⟩
  unfold antispoofNdp
  rw [found, frameOf_eq isAddress]
  simp only
  by_cases icmp : type = 0x3A#8
  · by_cases advertisement : pkt.buf address = 0x88#8
    · simp only [icmp, advertisement, ne_eq, not_true_eq_false, if_false, false_or]
      exact matched
    · simp [icmp, advertisement]
  · simp [icmp]

/-- What a packet from the inside has to meet to pass. -/
theorem antispoofPasses_iff {pkt : Mbuf} (inBuffer : 2 ≤ pkt.dataOff + pkt.l2Len) :
    antispoofPasses state pkt = true ↔ Holds (frameOf pkt) 6 (bytesOf 6 state.mac) ∧
        ¬ Holds (frameOf pkt) (pkt.l2Len - 2) rarpType ∧
        (state.arpEnabled = true → Holds (frameOf pkt) (pkt.l2Len - 2) arpType →
          ArpAllowed (Holds (frameOf pkt)) state pkt.l2Len) ∧
        (state.ndpEnabled = true → Holds (frameOf pkt) (pkt.l2Len - 2) ipv6Type →
          antispoofNdp state pkt = true) := by
  have source : load 6 pkt.buf (pkt.dataOff + 6) = state.mac ↔
        Holds (frameOf pkt) 6 (bytesOf 6 state.mac) :=
    load_eq_iff_holds (by push_cast; omega)
  have type (value : BitVec 16) : pgUtilsGetEtherType pkt = value ↔
        Holds (frameOf pkt) (pkt.l2Len - 2) (bytesOf 2 value) :=
    load_eq_iff_holds (by omega)
  unfold rarpType arpType ipv6Type
  rw [← source, ← type, ← type, ← type, ← antispoofArp_iff]
  unfold antispoofPasses
  by_cases isMac : load 6 pkt.buf (pkt.dataOff + 6) = state.mac
  · by_cases isRarp : pgUtilsGetEtherType pkt = 0x3580#16
    · simp [isMac, isRarp]
    · simp only [isMac, ne_eq, not_true_eq_false, if_false, isRarp, not_false_eq_true, true_and]
      by_cases refusedArp : state.arpEnabled = true ∧ pgUtilsGetEtherType pkt = 0x0608#16 ∧
            ¬ antispoofArp state pkt = true
      · rw [if_pos refusedArp]
        simp only [Bool.false_eq_true, false_iff, not_and]
        intro allowed
        exact absurd (allowed refusedArp.1 refusedArp.2.1) refusedArp.2.2
      · rw [if_neg refusedArp]
        by_cases refusedNdp : state.ndpEnabled = true ∧ pgUtilsGetEtherType pkt = beEtherTypeIpv6 ∧
              ¬ antispoofNdp state pkt = true
        · rw [if_pos refusedNdp]
          simp only [Bool.false_eq_true, false_iff, not_and]
          intro _ allowed
          exact absurd (allowed refusedNdp.1 refusedNdp.2.1) refusedNdp.2.2
        · rw [if_neg refusedNdp]
          simp only [true_iff]
          refine ⟨fun enabled isType => ?_, fun enabled isType => ?_⟩
          · by_contra refused
            exact refusedArp ⟨enabled, isType, refused⟩
          · by_contra refused
            exact refusedNdp ⟨enabled, isType, refused⟩
  · simp [isMac]

end Check

section Walk

/-- Where the walk over extension headers ends, as far as known bytes tell. -/
inductive Layer4 where
  | unknown
  | tooMany
  | found (type : BitVec 8) (place : Int)

/-- The size of a header that is an extension. -/
def extensionSize (header length : BitVec 8) : Option Nat :=
  if header = 0x3C#8 ∨ header = 0x00#8 ∨ header = 0x2B#8 ∨ header = 0x88#8 then
    some ((length.toNat + 1) * 8)
  else if header = 0x2C#8 then
    some 8
  else if header = 0x33#8 then some ((length.toNat + 2) * 4) else none

/--
The walk of `pg_utils_get_ipv6_l4` over known bytes.  Nothing is known behind
an unknown length, so that it does not matter what it is taken for.
-/
def layer4 (known : Known (BitVec 8)) :
    Nat → Option (BitVec 8) → Int → Layer4
  | 0, _, _ => .tooMany
  | _ + 1, none, _ => .unknown
  | rounds + 1, some header, place =>
    match extensionSize header ((known (place + 1)).getD 0#8) with
    | none => .found header place
    | some size => layer4 known rounds (known place) (place + size)

theorem ipv6ExtensionsFrom_succ (buf : Memory) (rounds : Nat) (header : BitVec 8) (address : Nat) :
    ipv6ExtensionsFrom buf (rounds + 1) header address =
      match extensionSize header (buf (address + 1)) with
      | none => some (header, address)
      | some size =>
        ipv6ExtensionsFrom buf rounds (buf address) (address + size) := by
  rw [ipv6ExtensionsFrom]
  unfold extensionSize
  split
  · rfl
  · split
    · rfl
    · split <;> rfl

variable {header : BitVec 8}

/-- Being an extension does not depend on the length byte. -/
theorem extensionSize_eq_none {length : BitVec 8}
    (notExtension : extensionSize header length = none) (other : BitVec 8) :
    extensionSize header other = none := by
  unfold extensionSize at notExtension ⊢
  split_ifs at notExtension
  simp_all

theorem extensionSize_pos {length : BitVec 8} {size : Nat}
    (isSize : extensionSize header length = some size) : 1 ≤ size := by
  unfold extensionSize at isSize
  split_ifs at isSize <;> cases isSize <;> omega

variable {pkt : Mbuf} {known : Known (BitVec 8)} {bound : Int}

/-- A place of the real walk is that of the known one, or both are unknown. -/
def SamePlace (known : Known (BitVec 8)) (place other : Int) : Prop :=
  other = place ∨ Beyond known place ∧ Beyond known other

/-- How the real walk ends, given how the known one does. -/
inductive WalkEnds (pkt : Mbuf) (known : Known (BitVec 8)) (bound : Int)
    (result : Option (BitVec 8 × Nat)) : Layer4 → Prop where
  | tooMany (isResult : result = none) : WalkEnds pkt known bound result .tooMany
  | found {type : BitVec 8} {address : Nat} {na other : Int}
      (isResult : result = some (type, address)) (isAddress : (address : Int) = pkt.dataOff + other)
      (after : bound ≤ other) (tracks : SamePlace known na other) :
      WalkEnds pkt known bound result (.found type na)
  | unknown {rounds : Nat} {address : Nat} {place other : Int} (isResult : result =
          ipv6ExtensionsFrom pkt.buf (rounds + 1) (frameOf pkt place) address)
      (isAddress : (address : Int) = pkt.dataOff + other) (after : bound ≤ place ∧ bound ≤ other)
      (beyond : Beyond known place ∧ Beyond known other) : WalkEnds pkt known bound result .unknown

/-- The header that is read next is known, or all that follows is unknown. -/
def NextHeader (pkt : Mbuf) (known : Known (BitVec 8)) (bound : Int) (header : Option (BitVec 8))
    (seen : BitVec 8) (place other : Int) : Prop :=
  header = some seen ∨ header = none ∧ Beyond known place ∧ Beyond known other ∧
      ∃ read, bound ≤ read ∧ Beyond known read ∧ frameOf pkt read = seen

section

variable (completes : Completes (frameOf pkt) known) (upward : Upward known bound)

include completes upward

/-- Both walks go on to places that track each other. -/
theorem SamePlace.next {place other : Int} {size real : Nat} (after : bound ≤ place)
    (tracks : SamePlace known place other)
    (isSize : extensionSize header ((known (place + 1)).getD 0#8) = some size)
    (realSize : extensionSize header (frameOf pkt (other + 1)) = some real) :
    SamePlace known (place + size) (other + real) := by
  rcases tracks with rfl | ⟨here, there⟩
  · cases isLength : known (other + 1) with
    | some length =>
      rw [isLength, Option.getD_some, ← completes _ _ isLength, realSize] at isSize
      rw [Option.some.inj isSize]
      exact .inl rfl
    | none =>
      have beyond := upward (other + 1) (by omega) isLength
      have knownMoves := extensionSize_pos isSize
      have realMoves := extensionSize_pos realSize
      exact .inr ⟨beyond.later (by omega), beyond.later (by omega)⟩
  · exact .inr ⟨here.later (by omega), there.later (by omega)⟩

/-- The real walk follows the known one until nothing more is known. -/
theorem walk_ends (rounds : Nat) {header : Option (BitVec 8)} {seen : BitVec 8} {place other : Int}
    {address : Nat} (isAddress : (address : Int) = pkt.dataOff + other)
    (after : bound ≤ place ∧ bound ≤ other) (tracks : SamePlace known place other)
    (next : NextHeader pkt known bound header seen place other) :
    WalkEnds pkt known bound (ipv6ExtensionsFrom pkt.buf rounds seen address)
      (layer4 known rounds header place) := by
  induction rounds generalizing header seen place other address with
  | zero => exact .tooMany rfl
  | succ rounds ih =>
    rcases next with rfl | ⟨rfl, atPlace, atOther, read, early, unread, rfl⟩
    · -- the header is known, its successor and its length may not be
      unfold layer4
      rw [ipv6ExtensionsFrom_succ]
      have atHeader : frameOf pkt other = pkt.buf address := frameOf_eq isAddress
      have atLength : frameOf pkt (other + 1) = pkt.buf (address + 1) :=
        frameOf_eq (by push_cast; omega)
      cases isSize : extensionSize seen ((known (place + 1)).getD 0#8) with
      | none =>
        rw [extensionSize_eq_none isSize]
        exact .found rfl isAddress after.2 tracks
      | some size =>
        cases realSize : extensionSize seen (pkt.buf (address + 1)) with
        | none =>
          rw [extensionSize_eq_none realSize] at isSize
          exact absurd isSize (by simp)
        | some real =>
          have nextAddress : ((address + real : Nat) : Int) = pkt.dataOff + (other + real) := by
            push_cast
            omega
          rw [← atLength] at realSize
          have nextPlaces := tracks.next completes upward after.1 isSize realSize
          refine ih nextAddress ⟨by omega, by omega⟩ nextPlaces ?_
          cases isNext : known place with
          | some following =>
            refine .inl ?_
            rcases tracks with rfl | ⟨here, _⟩
            · rw [← atHeader, completes _ _ isNext]
            · rw [here place (le_refl _)] at isNext
              exact absurd isNext (by simp)
          | none =>
            have beyond := upward place after.1 isNext
            have there : Beyond known other := by
              rcases tracks with rfl | ⟨_, there⟩
              · exact beyond
              · exact there
            exact .inr ⟨rfl, beyond.later (by omega), there.later (by omega), other, after.2, there,
              atHeader⟩
    · exact .unknown rfl isAddress ⟨early, after.2⟩ ⟨unread, atOther⟩

end

end Walk

end PacketGraph
