import PacketGraph.Flow.Antispoof

namespace PacketGraph

open Bytes List

/-!
# IPv6 extension headers

`pg_utils_get_ipv6_l4` is to skip six kinds of extension headers.  It takes the
number of UDP-Lite for that of the mobility header, and its error value makes
the layer 3 header one byte shorter than an IPv6 header.
-/

/-- The extension headers to skip. -/
inductive ExtensionKind where
  | hopByHop | destination | routing | fragment | authentication | mobility
  deriving Repr, DecidableEq

/-- The next-header value that announces a header. -/
def ExtensionKind.number : ExtensionKind → BitVec 8
  | .hopByHop => 0#8
  | .destination => 60#8
  | .routing => 43#8
  | .fragment => 44#8
  | .authentication => 51#8
  | .mobility => 135#8

/-- The length of a header, given its second byte. -/
def ExtensionKind.size (kind : ExtensionKind) (length : BitVec 8) : Nat :=
  match kind with
  | .fragment => 8
  | .authentication => (length.toNat + 2) * 4
  | _ => (length.toNat + 1) * 8

/--
A chain of extension headers, announced by `header` and stored from an address
on, that ends in another protocol after `total` bytes.
-/
inductive ChainAt (buf : Memory) (protocol : BitVec 8) :
    BitVec 8 → Nat → List ExtensionKind → Nat → Prop where
  | done {address : Nat} (other : ∀ kind : ExtensionKind, protocol ≠ kind.number) :
      ChainAt buf protocol protocol address [] 0
  | skip {kind : ExtensionKind} {address total : Nat} {kinds : List ExtensionKind} (rest :
        ChainAt buf protocol (buf address) (address + kind.size (buf (address + 1))) kinds total) :
      ChainAt buf protocol kind.number address (kind :: kinds)
        (kind.size (buf (address + 1)) + total)

/-- The value that `pg_utils_get_ipv6_l4` returns. -/
def ipv6L4Length (pkt : Mbuf) : Int :=
  match pgUtilsGetIpv6L4 pkt with
  | none => -1
  | some (_, payload) => payload - (pgUtilsGetL3 pkt + 40 : Nat)

/-- The walk over a chain gives what is behind it, or fails on a long one. -/
structure WalksChain (pkt : Mbuf) (kinds : List ExtensionKind) (protocol : BitVec 8) (total : Nat) :
    Prop where
  short : kinds.length ≤ 6 → ipv6L4Length pkt = total ∧
        pgUtilsGetIpv6L4 pkt = some (protocol, pgUtilsGetL3 pkt + 40 + total)
  long : 6 < kinds.length → ipv6L4Length pkt = -1
  covered : 40 ≤ pgUtilsGetIpv6L3Len pkt

section Walk

variable {buf : Memory} {protocol header : BitVec 8} {address total : Nat}
  {kinds : List ExtensionKind}

theorem ChainAt.other (chain : ChainAt buf protocol header address kinds total)
    (kind : ExtensionKind) : protocol ≠ kind.number := by
  induction chain with
  | done other => exact other kind
  | skip _ ih => exact ih

theorem extensionSize_number {kind : ExtensionKind} (known : kind ≠ .mobility) (length : BitVec 8) :
    extensionSize kind.number length = some (kind.size length) := by
  cases kind <;> first | rfl | exact absurd rfl known

/-- The code takes UDP-Lite for an extension, and no other protocol. -/
theorem extensionSize_protocol (other : ∀ kind : ExtensionKind, protocol ≠ kind.number)
    (notUdpLite : protocol ≠ 0x88#8) (length : BitVec 8) :
    extensionSize protocol length = none := by
  have hopByHop := other .hopByHop
  have destination := other .destination
  have routing := other .routing
  have fragment := other .fragment
  have authentication := other .authentication
  simp_all [ExtensionKind.number, extensionSize]

section

variable (chain : ChainAt buf protocol header address kinds total)

include chain

/-- Known headers are skipped, one a round. -/
theorem ChainAt.walk (known : .mobility ∉ kinds) (rounds : Nat) :
    ipv6ExtensionsFrom buf (kinds.length + rounds) header address =
      ipv6ExtensionsFrom buf rounds protocol (address + total) := by
  induction chain with
  | done => simp
  | @skip kind address total kinds rest ih =>
    obtain ⟨here, later⟩ := not_or.mp (mt mem_cons.mpr known)
    rw [length_cons, Nat.add_right_comm, ipv6ExtensionsFrom_succ,
      extensionSize_number (Ne.symm here), ← Nat.add_assoc]
    exact ih later

/-- The walk does not get past a mobility header. -/
theorem ChainAt.stops (blocked : .mobility ∈ kinds) (rounds last : Nat) :
    ipv6ExtensionsFrom buf rounds header address ≠ some (protocol, last) := by
  induction chain generalizing rounds with
  | done => cases blocked
  | @skip kind address total kinds rest ih =>
    cases rounds with
    | zero => simp [ipv6ExtensionsFrom]
    | succ rounds =>
      rw [ipv6ExtensionsFrom_succ]
      by_cases isMobility : kind = .mobility
      · subst isMobility
        intro same
        cases same
        exact rest.other .mobility rfl
      · rw [extensionSize_number isMobility]
        exact ih ((mem_cons.mp blocked).resolve_left (Ne.symm isMobility)) rounds

end

/-- The walk never goes back. -/
theorem le_of_ipv6ExtensionsFrom {rounds last : Nat} {type : BitVec 8}
    (walked : ipv6ExtensionsFrom buf rounds header address = some (type, last)) :
    address ≤ last := by
  induction rounds generalizing header address with
  | zero => cases walked
  | succ rounds ih =>
    rw [ipv6ExtensionsFrom_succ] at walked
    split at walked
    · cases walked
      exact le_refl _
    · exact Nat.le_of_add_right_le (ih walked)

end Walk

/-- The walk is right exactly on short chains that the code knows. -/
theorem ipv6_walk_iff {pkt : Mbuf} {kinds : List ExtensionKind} {protocol : BitVec 8} {total : Nat}
    (chain : ChainAt pkt.buf protocol (pkt.buf (pgUtilsGetL3 pkt + 6)) (pgUtilsGetL3 pkt + 40) kinds
        total) :
    WalksChain pkt kinds protocol total ↔
      kinds.length ≤ 6 ∧ .mobility ∉ kinds ∧ protocol ≠ 0x88#8 := by
  constructor
  · rintro ⟨isShort, isLong, covered⟩
    have bounded : kinds.length ≤ 6 := by
      by_contra tooLong
      have failed := isLong (by omega)
      unfold ipv6L4Length at failed
      unfold pgUtilsGetIpv6L3Len at covered
      split at failed
      · rename_i isNone
        simp [isNone] at covered
      · rename_i walked
        have forward := le_of_ipv6ExtensionsFrom walked
        omega
    have walked := (isShort bounded).2
    have known : .mobility ∉ kinds := fun blocked => chain.stops blocked 7 _ walked
    refine ⟨bounded, known, ?_⟩
    rintro rfl
    obtain ⟨rounds, isRounds⟩ : ∃ rounds, 7 = kinds.length + (rounds + 1) :=
      ⟨6 - kinds.length, by omega⟩
    unfold pgUtilsGetIpv6L4 at walked
    rw [isRounds, chain.walk known, ipv6ExtensionsFrom_succ] at walked
    have forward := le_of_ipv6ExtensionsFrom walked
    omega
  · rintro ⟨bounded, known, notUdpLite⟩
    obtain ⟨rounds, isRounds⟩ : ∃ rounds, 7 = kinds.length + (rounds + 1) :=
      ⟨6 - kinds.length, by omega⟩
    have walked : pgUtilsGetIpv6L4 pkt = some (protocol, pgUtilsGetL3 pkt + 40 + total) := by
      unfold pgUtilsGetIpv6L4
      rw [isRounds, chain.walk known, ipv6ExtensionsFrom_succ,
        extensionSize_protocol chain.other notUdpLite]
    refine ⟨fun _ => ⟨?_, walked⟩, fun tooLong => absurd bounded (by omega), ?_⟩
    · simp [ipv6L4Length, walked]
    · simp only [pgUtilsGetIpv6L3Len, walked]
      omega

/-- An IPv6 packet with one extension header of eight bytes before UDP. -/
def optionPacket (kind : ExtensionKind) : Mbuf :=
  { Mbuf.zero with
    buf := fun place => match place with
      | 6 => kind.number
      | 40 => 17#8
      | _ => 0#8 }

theorem optionPacket_chain {kind : ExtensionKind} (isEight : kind.size 0#8 = 8) :
    ChainAt (optionPacket kind).buf 17#8 ((optionPacket kind).buf 6) 40 [kind] 8 := by
  have ends : ChainAt (optionPacket kind).buf 17#8 17#8 (40 + kind.size 0#8) [] 0 :=
    .done (fun other => by cases other <;> decide)
  have chain : ChainAt (optionPacket kind).buf 17#8 kind.number 40 [kind] _ := .skip ends
  simpa [optionPacket, isEight] using chain

/-- A routing header in front of UDP is skipped. -/
theorem ipv6_walk_iff_routing : WalksChain (optionPacket .routing) [.routing] 17#8 8 :=
  (ipv6_walk_iff (optionPacket_chain rfl)).mpr (by decide)

/-- A mobility header is taken for the last protocol. -/
theorem mobility_header_ends_walk :
    ChainAt (optionPacket .mobility).buf 17#8 ((optionPacket .mobility).buf 6) 40 [.mobility] 8 ∧
      ¬ WalksChain (optionPacket .mobility) [.mobility] 17#8 8 := by
  refine ⟨optionPacket_chain rfl, fun walks => ?_⟩
  have walked := (walks.short (by decide)).2
  revert walked
  decide +kernel

end PacketGraph
