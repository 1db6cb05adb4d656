import PacketGraph.Flow.Antispoof

namespace PacketGraph

open BitScan Bytes List PartialMemory

/-!
# When the data of a packet decides the verdict of an antispoof brick

The data is what is known of the bytes around a packet.  It surely passes when
every field that is compared lies inside it and matches.  It can pass when no
byte of it stands against that, once the source address is taken for the right
one.  Between the two, the bytes behind the data decide.
-/

variable {ι : Type}

/-- No bytes behind the known ones make the check of IPv6 packets fail. -/
def NdpSure (state : AntispoofState) (known : Known (BitVec 8)) (l3 : Int) : Prop :=
  match layer4 known 7 (known (l3 + 6)) (l3 + 40) with
  | .unknown => False
  | .tooMany => False
  | .found type na =>
    type ≠ 0x3A#8 ∨ (∃ byte, known na = some byte ∧ byte ≠ 0x88#8) ∨
      NaAllowed (Sure known) state l3 na

/-- Some bytes behind the known ones make the check of IPv6 packets pass. -/
def NdpPossible (state : AntispoofState) (known : Known (BitVec 8)) (l3 : Int) : Prop :=
  match layer4 known 7 (known (l3 + 6)) (l3 + 40) with
  | .unknown => True
  | .tooMany => False
  | .found type na =>
    type ≠ 0x3A#8 ∨ known na ≠ some 0x88#8 ∨ NaAllowed (Possible known) state l3 na

/-- The known bytes pass, whatever follows. -/
structure Cleared (state : AntispoofState) (known : Known (BitVec 8)) (l3 : Int) : Prop where
  mac : Sure known 6 (bytesOf 6 state.mac)
  rarp : ¬ Possible known (l3 - 2) rarpType
  arp : state.arpEnabled = true → Possible known (l3 - 2) arpType → ArpAllowed (Sure known) state l3
  ndp : state.ndpEnabled = true → Possible known (l3 - 2) ipv6Type → NdpSure state known l3

/-- The known bytes, and the source address that a packet has to have. -/
def withSource (state : AntispoofState) (known : Known (BitVec 8)) : Known (BitVec 8) :=
  learn known 6 (bytesOf 6 state.mac)

/-- The known bytes pass if the right bytes follow. -/
structure Passable (state : AntispoofState) (known : Known (BitVec 8)) (l3 : Int) : Prop where
  mac : Possible known 6 (bytesOf 6 state.mac)
  rarp : ¬ Sure (withSource state known) (l3 - 2) rarpType
  arp : state.arpEnabled = true → Sure (withSource state known) (l3 - 2) arpType →
    ArpAllowed (Possible (withSource state known)) state l3
  ndp : state.ndpEnabled = true → Sure (withSource state known) (l3 - 2) ipv6Type →
    NdpPossible state (withSource state known) l3

section Sound

variable {state : AntispoofState} {pkt : Mbuf} {known : Known (BitVec 8)}

variable {has gives : Int → List (BitVec 8) → Prop} {l3 : Int}

theorem ArpAllowed.mono (implied : ∀ start cells, has start cells → gives start cells)
    (allowed : ArpAllowed has state l3) : ArpAllowed gives state l3 := by
  obtain ⟨ip, member, start, mac, sender⟩ := allowed
  exact ⟨ip, member, implied _ _ start, implied _ _ mac, implied _ _ sender⟩

variable {na : Int}

theorem NaAllowed.mono (implied : ∀ start cells, has start cells → gives start cells)
    (allowed : NaAllowed has state l3 na) : NaAllowed gives state l3 na := by
  obtain ⟨ip, member, source, target, option⟩ := allowed
  exact ⟨ip, member, implied _ _ source, implied _ _ target, implied _ _ option⟩

/-- How the walk over the extension headers of a packet ends. -/
theorem l4_ends (completes : Completes (frameOf pkt) known)
    (upward : Upward known (pkt.l2Len + 6)) :
    WalkEnds pkt known (pkt.l2Len + 6) (pgUtilsGetIpv6L4 pkt)
      (layer4 known 7 (known (pkt.l2Len + 6)) (pkt.l2Len + 40)) := by
  have atHeader : frameOf pkt (pkt.l2Len + 6) = pkt.buf (pgUtilsGetL3 pkt + 6) :=
    frameOf_eq (by unfold pgUtilsGetL3; push_cast; omega)
  have isAddress : ((pgUtilsGetL3 pkt + 40 : Nat) : Int) =
        pkt.dataOff + ((pkt.l2Len : Int) + 40) := by
    unfold pgUtilsGetL3
    push_cast
    omega
  unfold pgUtilsGetIpv6L4
  rw [← atHeader]
  refine walk_ends completes upward 7 isAddress ⟨by omega, by omega⟩ (.inl rfl) ?_
  cases isHeader : known (pkt.l2Len + 6) with
  | some header => exact .inl (by rw [completes _ _ isHeader])
  | none =>
    have beyond := upward _ (le_refl _) isHeader
    exact .inr ⟨rfl, beyond.later (by omega), beyond.later (by omega), _, le_refl _, beyond, rfl⟩

/-- A place of which something is known is where the real walk is. -/
theorem SamePlace.eq_of_known {other later : Int} (tracks : SamePlace known na other)
    (isLater : na ≤ later) (isKnown : known later ≠ none) : other = na := by
  rcases tracks with same | ⟨beyond, _⟩
  · exact same
  · exact absurd (beyond later isLater) isKnown

section

variable (completes : Completes (frameOf pkt) known) (upward : Upward known (pkt.l2Len + 6))

include completes upward

theorem antispoofNdp_of_sure (sure : NdpSure state known pkt.l2Len) :
    antispoofNdp state pkt = true := by
  have ends := l4_ends completes upward
  unfold NdpSure at sure
  generalize layer4 known 7 (known (pkt.l2Len + 6)) (pkt.l2Len + 40) = isEnd at ends sure
  cases ends with
  | tooMany isResult | unknown isResult isAddress after beyond => exact absurd sure id
  | @found type address na other isResult isAddress after tracks =>
    rw [antispoofNdp_iff isResult isAddress]
    rcases sure with notIcmp | ⟨byte, isByte, other⟩ | allowed
    · exact .inl notIcmp
    · have same := tracks.eq_of_known (le_refl na) (by simp [isByte])
      rw [same, completes _ _ isByte]
      exact .inr (.inl other)
    · have isKnown : known (na + 24) ≠ none := by
        obtain ⟨_, _, _, _, option⟩ := allowed
        have first := option 0 2#8 rfl
        simp only [Nat.cast_zero, add_zero] at first
        simp [first]
      rw [tracks.eq_of_known (by omega) isKnown]
      exact .inr (.inr (allowed.mono (fun _ _ isSure => isSure.holds completes)))

theorem possible_of_antispoofNdp (passes : antispoofNdp state pkt = true) :
    NdpPossible state known pkt.l2Len := by
  have ends := l4_ends completes upward
  unfold NdpPossible
  generalize layer4 known 7 (known (pkt.l2Len + 6)) (pkt.l2Len + 40) = isEnd at ends ⊢
  cases ends with
  | tooMany isResult =>
    rw [antispoofNdp_of_none isResult] at passes
    exact absurd passes (by simp)
  | unknown isResult isAddress after beyond => exact trivial
  | @found type address na other isResult isAddress after tracks =>
    rw [antispoofNdp_iff isResult isAddress] at passes
    by_cases isType : known na = some 0x88#8
    · obtain rfl := tracks.eq_of_known (le_refl na) (by simp [isType])
      rcases passes with notIcmp | notType | allowed
      · exact .inl notIcmp
      · exact absurd (completes _ _ isType) notType
      · exact .inr (.inr (allowed.mono (fun _ _ holds => holds.possible completes)))
    · exact .inr (.inl isType)

end

variable {l2Len : Nat}

/-- Data that is cleared passes in every packet. -/
theorem antispoofPasses_of_cleared {data : List (BitVec 8)}
    (cleared : Cleared state (ofList data) l2Len) (carries : CarriesData data l2Len pkt) :
    antispoofPasses state pkt = true := by
  have completes := carries.completes
  have upward : Upward (ofList data) (pkt.l2Len + 6) := (upward_ofList data).mono (by omega)
  obtain rfl := carries.l2Len
  rw [antispoofPasses_iff carries.inBuffer]
  refine ⟨cleared.mac.holds completes, fun isRarp => ?_,
    fun enabled isArp => ?_, fun enabled isIpv6 => ?_⟩
  · exact cleared.rarp (isRarp.possible completes)
  · exact (cleared.arp enabled (isArp.possible completes)).mono
      (fun _ _ isSure => isSure.holds completes)
  · exact antispoofNdp_of_sure completes upward (cleared.ndp enabled (isIpv6.possible completes))

/-- What is unknown behind the source address is unknown to the end. -/
theorem upward_withSource (state : AntispoofState) (data : List (BitVec 8)) :
    Upward (withSource state (ofList data)) 6 := by
  intro place after unknown later isLater
  have behind : 12 ≤ place := by
    by_contra inside
    exact learn_ne_none (ofList data) 6 (bytesOf 6 state.mac) after
      (by rw [length_bytesOf]; omega) unknown
  unfold withSource at unknown ⊢
  rw [learn_of_outside (by rw [length_bytesOf]; omega)] at unknown ⊢
  exact upward_ofList data place (by omega) unknown later isLater

/-- Data that passes in some packet is passable. -/
theorem passable_of_passes {data : List (BitVec 8)} (carries : CarriesData data l2Len pkt)
    (passes : antispoofPasses state pkt = true) : Passable state (ofList data) l2Len := by
  obtain rfl := carries.l2Len
  obtain ⟨mac, notRarp, arp, ndp⟩ := (antispoofPasses_iff carries.inBuffer).mp passes
  have completes : Completes (frameOf pkt) (withSource state (ofList data)) :=
    mac.completes_learn carries.completes
  refine ⟨mac.possible carries.completes, fun isRarp => ?_,
    fun enabled isArp => ?_, fun enabled isIpv6 => ?_⟩
  · exact notRarp (isRarp.holds completes)
  · exact (arp enabled (isArp.holds completes)).mono (fun _ _ holds => holds.possible completes)
  · exact possible_of_antispoofNdp completes ((upward_withSource state data).mono (by omega))
      (ndp enabled (isIpv6.holds completes))

end Sound

section Complete

variable {state : AntispoofState} {data : List (BitVec 8)} {l2Len : Nat} {view : Known (BitVec 8)}

/-- What a packet holds inside its data is sure. -/
theorem CarriesData.sure {pkt : Mbuf} {start last : Int} {cells : List (BitVec 8)}
    (carries : CarriesData data l2Len pkt) (holds : Holds (frameOf pkt) start cells)
    (inside : ofList data last ≠ none) (after : 0 ≤ start)
    (below : start + cells.length ≤ last + 1) : Sure (ofList data) start cells :=
  holds.sure carries.completes (fun offset inList =>
    (upward_ofList data).known_below inside (by omega) (by omega))

/-- Known bytes that extend some data, none of them far before it. -/
structure Extends (data : List (BitVec 8)) (view : Known (BitVec 8)) : Prop where
  data : ∀ place cell, ofList data place = some cell → view place = some cell
  notBefore : ∀ place, view place ≠ none → -2 ≤ place

theorem extends_ofList (data : List (BitVec 8)) : Extends data (ofList data) := by
  refine ⟨fun _ _ isCell => isCell, fun place isKnown => ?_⟩
  by_contra before
  exact isKnown (ofList_of_neg data (by omega))

section

variable (extended : Extends data view)

include extended

theorem Extends.learn {start : Int} (notBefore : -2 ≤ start) (cells : List (BitVec 8))
    : Extends data (PartialMemory.learn view start cells) := by
  refine ⟨fun place cell isCell => ?_, fun place isKnown => ?_⟩
  · exact learn_of_known (extended.data place cell isCell) start cells
  · by_contra before
    rw [learn_of_outside (by omega)] at isKnown
    exact before (extended.notBefore place isKnown)

/-- The packet with these bytes around its data, and one byte elsewhere. -/
theorem Extends.packet (l2Len : Nat) (rest : BitVec 8) :
    ∃ pkt, CarriesData data l2Len pkt ∧ Completes (frameOf pkt) view ∧
        ∀ place, -2 ≤ place → view place = none → frameOf pkt place = rest :=
  exists_packet data l2Len view rest extended.data extended.notBefore

/-- Cells that are possible at three places, one after the other, hold in some packet. -/
theorem Extends.exists_holding (l2Len : Nat) {start next last : Int}
    {cells more rest : List (BitVec 8)} (first : Possible view start cells)
    (second : Possible view next more) (third : Possible view last rest)
    (apart : -2 ≤ start ∧ start + cells.length ≤ next ∧ next + more.length ≤ last) :
    ∃ pkt, CarriesData data l2Len pkt ∧ Completes (frameOf pkt) view ∧
        Holds (frameOf pkt) start cells ∧ Holds (frameOf pkt) next more ∧
        Holds (frameOf pkt) last rest := by
  let known := PartialMemory.learn (PartialMemory.learn view start cells) next more
  have sureSecond : Sure known next more := (second.learn_elsewhere (.inr apart.2.1)).sure_learn
  have stillPossible : Possible (PartialMemory.learn view start cells) last rest :=
    third.learn_elsewhere (.inr (by omega))
  have sureThird : Sure (PartialMemory.learn known last rest) last rest :=
    (stillPossible.learn_elsewhere (.inr apart.2.2)).sure_learn
  have all : Extends data (PartialMemory.learn known last rest) :=
    ((extended.learn apart.1 _).learn (by omega) _).learn (by omega) _
  obtain ⟨pkt, carries, completes, _⟩ := all.packet l2Len 0#8
  exact ⟨pkt, carries, completes_of_learn (completes_of_learn (completes_of_learn completes)),
    ((first.sure_learn.learn _ _).learn _ _).holds completes,
    (sureSecond.learn _ _).holds completes, sureThird.holds completes⟩

end

/-- The walk over known bytes goes forward. -/
theorem layer4_place {known : Known (BitVec 8)} {rounds : Nat} {header : Option (BitVec 8)}
    {place na : Int} {type : BitVec 8}
    (isFound : layer4 known rounds header place = .found type na) : place ≤ na := by
  induction rounds generalizing header place with
  | zero => exact absurd isFound (by simp [layer4])
  | succ rounds ih =>
    cases header with
    | none => exact absurd isFound (by simp [layer4])
    | some header =>
      unfold layer4 at isFound
      split at isFound
      · have same : place = na := by simpa using (Layer4.found.inj isFound).2
        omega
      · have further := ih isFound
        omega

/-- An IPv6 packet that can pass does pass with the right bytes behind it. -/
theorem exists_ndp_passes (extended : Extends data view) (upward : Upward view (l2Len + 6))
    (possible : NdpPossible state view l2Len) :
    ∃ pkt, CarriesData data l2Len pkt ∧ Completes (frameOf pkt) view ∧
        antispoofNdp state pkt = true := by
  have freely : ¬ (∃ na, layer4 view 7 (view (l2Len + 6)) (l2Len + 40) = .found 0x3A#8 na ∧
          view na = some 0x88#8) → ∃ pkt,
        CarriesData data l2Len pkt ∧ Completes (frameOf pkt) view ∧
          antispoofNdp state pkt = true := by
    -- any byte that names no header of interest will do
    intro noAdvertisement
    obtain ⟨pkt, carries, completes, elsewhere⟩ := extended.packet l2Len 0xFF#8
    obtain rfl := carries.l2Len
    refine ⟨pkt, carries, completes, ?_⟩
    have ends := l4_ends completes upward
    unfold NdpPossible at possible
    generalize layer4 view 7 (view (pkt.l2Len + 6)) (pkt.l2Len + 40) = isEnd
        at ends possible noAdvertisement
    cases ends with
    | tooMany isResult => exact absurd possible id
    | @unknown rounds address place other isResult isAddress after beyond =>
      rw [elsewhere place (by omega) (beyond.1 place (le_refl _)),
        ipv6ExtensionsFrom_succ] at isResult
      rw [antispoofNdp_iff isResult isAddress]
      exact .inl (by decide)
    | @found type address na other isResult isAddress after tracks =>
      rw [antispoofNdp_iff isResult isAddress]
      by_cases icmp : type = 0x3A#8
      · subst icmp
        refine .inr (.inl ?_)
        cases isKnown : view na with
        | some byte =>
          rw [tracks.eq_of_known (le_refl na) (by simp [isKnown]), completes _ _ isKnown]
          rintro rfl
          exact noAdvertisement ⟨na, rfl, isKnown⟩
        | none =>
          have unknown : view other = none := by
            rcases tracks with rfl | ⟨_, beyond⟩
            · exact isKnown
            · exact beyond other (le_refl _)
          rw [elsewhere other (by omega) unknown]
          decide
      · exact .inl icmp
  by_cases advertisement : ∃ na, layer4 view 7 (view (l2Len + 6)) (l2Len + 40) = .found 0x3A#8 na ∧
          view na = some 0x88#8
  · obtain ⟨na, isFound, isType⟩ := advertisement
    have forward := layer4_place isFound
    unfold NdpPossible at possible
    rw [isFound] at possible
    have allowed : NaAllowed (Possible view) state l2Len na := by simpa [isType] using possible
    obtain ⟨ip, member, source, target, option⟩ := allowed
    obtain ⟨pkt, carries, completes, sourceHolds, targetHolds, optionHolds⟩ :=
      extended.exists_holding l2Len source target option
        ⟨by omega, by rw [length_bytesOf]; omega, by rw [length_bytesOf]; omega⟩
    obtain rfl := carries.l2Len
    refine ⟨pkt, carries, completes, ?_⟩
    have ends := l4_ends completes upward
    rw [isFound] at ends
    cases ends with
    | @found type address na other isResult isAddress after tracks =>
      obtain rfl := tracks.eq_of_known (le_refl _) (by simp [isType])
      rw [antispoofNdp_iff isResult isAddress]
      exact .inr (.inr ⟨ip, member, sourceHolds, targetHolds, optionHolds⟩)
  · exact freely advertisement

/-- Data that is passable passes in some packet. -/
theorem exists_passes (passable : Passable state (ofList data) l2Len) :
    ∃ pkt, CarriesData data l2Len pkt ∧ antispoofPasses state pkt = true := by
  have extended : Extends data (withSource state (ofList data)) :=
    (extends_ofList data).learn (by omega) _
  have source : Sure (withSource state (ofList data)) 6 (bytesOf 6 state.mac) :=
    passable.mac.sure_learn
  by_cases isArp : state.arpEnabled = true ∧
        Sure (withSource state (ofList data)) (l2Len - 2) arpType
  · obtain ⟨ip, member, start, mac, sender⟩ := passable.arp isArp.1 isArp.2
    obtain ⟨pkt, carries, completes, startHolds, macHolds, senderHolds⟩ :=
      extended.exists_holding l2Len start mac sender
        ⟨by omega, by rw [length_arpStart]; omega, by rw [length_bytesOf]; omega⟩
    obtain rfl := carries.l2Len
    have arpHolds := isArp.2.holds completes
    exact ⟨pkt, carries, (antispoofPasses_iff carries.inBuffer).mpr
      ⟨source.holds completes, arpHolds.excludes rfl (by decide),
        fun _ _ => ⟨ip, member, startHolds, macHolds, senderHolds⟩,
        fun _ isIpv6 => absurd isIpv6 (arpHolds.excludes rfl (by decide))⟩⟩
  · by_cases isIpv6 : state.ndpEnabled = true ∧
          Sure (withSource state (ofList data)) (l2Len - 2) ipv6Type
    · obtain ⟨pkt, carries, completes, passes⟩ :=
        exists_ndp_passes extended ((upward_withSource state data).mono (by omega))
          (passable.ndp isIpv6.1 isIpv6.2)
      obtain rfl := carries.l2Len
      have ipv6Holds := isIpv6.2.holds completes
      exact ⟨pkt, carries, (antispoofPasses_iff carries.inBuffer).mpr
          ⟨source.holds completes, ipv6Holds.excludes rfl (by decide),
            fun _ isArp => absurd isArp (ipv6Holds.excludes rfl (by decide)), fun _ _ => passes⟩⟩
    · -- no ether type that is looked at has a byte 0xFF
      obtain ⟨pkt, carries, completes, elsewhere⟩ := extended.packet l2Len 0xFF#8
      obtain rfl := carries.l2Len
      have missing {type : List (BitVec 8)} (inDoubt :
            ¬ Sure (withSource state (ofList data)) (pkt.l2Len - 2) type)
          (other : ∀ cell ∈ type, 0xFF#8 ≠ cell) : ¬ Holds (frameOf pkt) (pkt.l2Len - 2) type :=
        not_holds_fill inDoubt other
          (fun offset _ unknown => elsewhere _ (by omega) unknown) completes
      refine ⟨pkt, carries, (antispoofPasses_iff carries.inBuffer).mpr
          ⟨source.holds completes, ?_, fun enabled arpHolds => ?_, fun enabled ipv6Holds => ?_⟩⟩
      · exact missing passable.rarp (by decide)
      · exact absurd arpHolds (missing (fun isSure => isArp ⟨enabled, isSure⟩) (by decide))
      · exact absurd ipv6Holds (missing (fun isSure => isIpv6 ⟨enabled, isSure⟩) (by decide))

theorem exists_other_byte (byte : BitVec 8) : ∃ other, other ≠ byte :=
  ⟨~~~byte, by revert byte; decide⟩

/-- Bytes that name extension headers only lead to too many of them. -/
theorem ipv6ExtensionsFrom_mobility {pkt : Mbuf} {other : Int} {address : Nat} (rounds : Nat)
    (isAddress : (address : Int) = pkt.dataOff + other)
    (endless : ∀ place, other ≤ place → frameOf pkt place = 0x88#8) :
    ipv6ExtensionsFrom pkt.buf rounds 0x88#8 address = none := by
  induction rounds generalizing other address with
  | zero => rfl
  | succ rounds ih =>
    have isNext : pkt.buf address = 0x88#8 := by
      rw [← frameOf_eq isAddress]
      exact endless other (le_refl _)
    obtain ⟨size, isSize⟩ : ∃ size, extensionSize 0x88#8 (pkt.buf (address + 1)) = some size :=
      ⟨_, rfl⟩
    have further : ((address + size : Nat) : Int) = pkt.dataOff + (other + size) := by
      push_cast
      omega
    rw [ipv6ExtensionsFrom_succ, isSize, isNext]
    exact ih further (fun place after => endless place (by omega))

/-- An IPv6 packet that may fail does fail with the wrong bytes behind it. -/
theorem exists_ndp_refused (extended : Extends data view)
    (same : ∀ place, (l2Len : Int) ≤ place → view place = ofList data place)
    (inDoubt : ¬ NdpSure state (ofList data) l2Len) :
    ∃ pkt, CarriesData data l2Len pkt ∧ Completes (frameOf pkt) view ∧
        antispoofNdp state pkt ≠ true := by
  have upward : Upward (ofList data) (l2Len + 6) := (upward_ofList data).mono (by omega)
  by_cases cutOption : ∃ na, layer4 (ofList data) 7 (ofList data (l2Len + 6)) (l2Len + 40) =
            .found 0x3A#8 na ∧ ofList data na = some 0x88#8 ∧ ofList data (na + 31) = none
  · -- the option goes on behind the data, where its last byte may be wrong
    obtain ⟨na, isFound, isType, isCut⟩ := cutOption
    have forward := layer4_place isFound
    obtain ⟨last, isLast⟩ : ∃ last, (linkLayerOption state)[7]? = some last :=
      ⟨_, List.getElem?_eq_getElem (by rw [length_linkLayerOption]; omega)⟩
    obtain ⟨wrong, isWrong⟩ := exists_other_byte last
    have widened : Extends data (learn view (na + 31) [wrong]) := extended.learn (by omega) _
    obtain ⟨pkt, carries, completes, _⟩ := widened.packet l2Len 0#8
    obtain rfl := carries.l2Len
    refine ⟨pkt, carries, completes_of_learn completes, fun passes => ?_⟩
    have ends := l4_ends carries.completes upward
    rw [isFound] at ends
    cases ends with
    | @found type address na other isResult isAddress after tracks =>
      obtain rfl := tracks.eq_of_known (le_refl _) (by simp [isType])
      rw [antispoofNdp_iff isResult isAddress] at passes
      rcases passes with notIcmp | notType | ⟨_, _, _, _, option⟩
      · exact notIcmp rfl
      · exact notType (carries.completes _ _ isType)
      · have found := option 7 last isLast
        have learned : learn view (other + 31) [wrong] (other + 31) = some wrong := by
          have isUnknown : view (other + 31) = none := by rw [same _ (by omega), isCut]
          simp [learn, isUnknown]
        have place : other + 24 + ((7 : Nat) : Int) = other + 31 := by omega
        rw [place, completes _ _ learned] at found
        exact isWrong found
  · obtain ⟨pkt, carries, completes, elsewhere⟩ := extended.packet l2Len 0x88#8
    obtain rfl := carries.l2Len
    have behind (place : Int) (after : (pkt.l2Len : Int) ≤ place)
        (unknown : ofList data place = none) : frameOf pkt place = 0x88#8 :=
      elsewhere place (by omega) (by rw [same place after, unknown])
    refine ⟨pkt, carries, completes, fun passes => ?_⟩
    have ends := l4_ends carries.completes upward
    unfold NdpSure at inDoubt
    generalize layer4 (ofList data) 7 (ofList data (pkt.l2Len + 6)) (pkt.l2Len + 40) = isEnd
        at ends inDoubt cutOption
    cases ends with
    | tooMany isResult =>
      rw [antispoofNdp_of_none isResult] at passes
      exact absurd passes (by simp)
    | @unknown rounds address place other isResult isAddress after beyond =>
      rw [behind place (by omega) (beyond.1 place (le_refl _)),
        ipv6ExtensionsFrom_mobility _ isAddress (fun later isLater =>
            behind later (by omega) (beyond.2 later isLater))]
        at isResult
      rw [antispoofNdp_of_none isResult] at passes
      exact absurd passes (by simp)
    | @found type address na other isResult isAddress after tracks =>
      push Not at inDoubt
      obtain ⟨rfl, notOther, notAllowed⟩ := inDoubt
      rw [antispoofNdp_iff isResult isAddress] at passes
      cases isKnown : ofList data na with
      | none =>
        have unknown (later : Int) (isLater : other ≤ later) : ofList data later = none := by
          rcases tracks with rfl | ⟨_, beyond⟩
          · exact upward_ofList data other (by omega) isKnown later isLater
          · exact beyond later isLater
        rcases passes with notIcmp | notType | ⟨_, _, _, _, option⟩
        · exact notIcmp rfl
        · exact notType (behind other (by omega) (unknown other (le_refl _)))
        · have first := option 0 2#8 rfl
          simp only [Nat.cast_zero, add_zero] at first
          rw [behind (other + 24) (by omega) (unknown _ (by omega))] at first
          exact absurd first (by decide)
      | some byte =>
        obtain rfl := notOther byte isKnown
        have isPlace := tracks.eq_of_known (le_refl _) (by simp [isKnown])
        subst isPlace
        have inside : ofList data (other + 31) ≠ none := by
          intro isCut
          exact cutOption ⟨other, rfl, isKnown, isCut⟩
        rcases passes with notIcmp | notType | ⟨ip, member, source, target, option⟩
        · exact notIcmp rfl
        · exact notType (carries.completes _ _ isKnown)
        · refine notAllowed ⟨ip, member, ?_, ?_, ?_⟩
          · exact carries.sure source inside (by omega) (by rw [length_bytesOf]; omega)
          · exact carries.sure target inside (by omega) (by rw [length_bytesOf]; omega)
          · exact carries.sure option inside (by omega) (by rw [length_linkLayerOption]; omega)

/-- `PG_ARP_MAX`. -/
def pgArpMax : Nat :=
  100

theorem getElem?_bytesOf_last (ip : BitVec 32) : (bytesOf 4 ip)[3]? = some (ip.extractLsb' 24 8) :=
  @getElem?_bytesOf 4 3 ip (by decide)

section

variable (few : state.arps.length ≤ pgArpMax)

include few

/-- Some byte ends none of the addresses that ARP packets may have. -/
theorem exists_unused_byte :
    ∃ byte : BitVec 8, ∀ ip ∈ state.arps, (bytesOf 4 ip)[3]? ≠ some byte := by
  let ends : List Nat := state.arps.map fun ip : BitVec 32 => (ip.extractLsb' 24 8).toNat
  have small : ends.toFinset.card < (Finset.range 256).card := by
    have bounded := toFinset_card_le ends
    have sameLength : ends.length = state.arps.length := length_map _
    unfold pgArpMax at few
    rw [Finset.card_range]
    omega
  obtain ⟨value, inRange, unused⟩ := Finset.exists_mem_notMem_of_card_lt_card small
  refine ⟨BitVec.ofNat 8 value, fun ip member isByte => unused ?_⟩
  rw [getElem?_bytesOf_last, Option.some.injEq] at isByte
  rw [mem_toFinset, mem_map]
  refine ⟨ip, member, ?_⟩
  rw [isByte, BitVec.toNat_ofNat]
  exact Nat.mod_eq_of_lt (Finset.mem_range.mp inRange)

/-- An ARP packet that may fail does fail with the wrong bytes behind it. -/
theorem exists_arp_refused (extended : Extends data view)
    (same : ∀ place, (l2Len : Int) ≤ place → view place = ofList data place)
    (inDoubt : ¬ ArpAllowed (Sure (ofList data)) state l2Len) :
    ∃ pkt, CarriesData data l2Len pkt ∧ Completes (frameOf pkt) view ∧
        ¬ ArpAllowed (Holds (frameOf pkt)) state l2Len := by
  cases isLast : ofList data (l2Len + 17) with
  | none =>
    -- the last byte of the sender lies behind the data
    obtain ⟨byte, unused⟩ := exists_unused_byte few
    have widened : Extends data (learn view (l2Len + 17) [byte]) := extended.learn (by omega) _
    obtain ⟨pkt, carries, completes, _⟩ := widened.packet l2Len 0#8
    refine ⟨pkt, carries, completes_of_learn completes, ?_⟩
    rintro ⟨ip, member, _, _, sender⟩
    have learned : learn view (l2Len + 17) [byte] (l2Len + 17) = some byte := by
      have isUnknown : view (l2Len + 17) = none := by rw [same _ (by omega), isLast]
      simp [learn, isUnknown]
    have isCell := getElem?_bytesOf_last ip
    have found := sender 3 _ isCell
    have place : (l2Len : Int) + 14 + ((3 : Nat) : Int) = l2Len + 17 := by omega
    rw [place, completes _ _ learned] at found
    exact unused ip member (by rw [isCell, found])
  | some last =>
    obtain ⟨pkt, carries, completes, _⟩ := extended.packet l2Len 0#8
    have inside : ofList data (l2Len + 17) ≠ none := by simp [isLast]
    refine ⟨pkt, carries, completes, ?_⟩
    rintro ⟨ip, member, start, mac, sender⟩
    refine inDoubt ⟨ip, member, ?_, ?_, ?_⟩
    · exact carries.sure start inside (by omega) (by rw [length_arpStart]; omega)
    · exact carries.sure mac inside (by omega) (by rw [length_bytesOf]; omega)
    · exact carries.sure sender inside (by omega) (by rw [length_bytesOf]; omega)

/-- Data that is not cleared is refused in some packet. -/
theorem exists_refused (notCleared : ¬ Cleared state (ofList data) l2Len) :
    ∃ pkt, CarriesData data l2Len pkt ∧ antispoofPasses state pkt ≠ true := by
  have extended := extends_ofList data
  have typed (type : List (BitVec 8)) : Extends data (learn (ofList data) (l2Len - 2) type) :=
    extended.learn (by omega) type
  have behind {type : List (BitVec 8)} (short : type.length = 2)
      (place : Int) (after : (l2Len : Int) ≤ place) :
      learn (ofList data) (l2Len - 2) type place = ofList data place :=
    learn_of_outside (by rw [short]; omega)
  by_cases mac : Sure (ofList data) 6 (bytesOf 6 state.mac)
  · by_cases rarp : Possible (ofList data) (l2Len - 2) rarpType
    · obtain ⟨pkt, carries, completes, _⟩ := (typed rarpType).packet l2Len 0#8
      obtain rfl := carries.l2Len
      refine ⟨pkt, carries, fun passes => ?_⟩
      rw [antispoofPasses_iff carries.inBuffer] at passes
      exact passes.2.1 (rarp.sure_learn.holds completes)
    · by_cases arp : state.arpEnabled = true ∧ Possible (ofList data) (l2Len - 2) arpType ∧
            ¬ ArpAllowed (Sure (ofList data)) state l2Len
      · obtain ⟨enabled, possible, inDoubt⟩ := arp
        obtain ⟨pkt, carries, completes, refused⟩ :=
          exists_arp_refused few (typed arpType) (behind rfl) inDoubt
        obtain rfl := carries.l2Len
        refine ⟨pkt, carries, fun passes => ?_⟩
        rw [antispoofPasses_iff carries.inBuffer] at passes
        exact refused (passes.2.2.1 enabled (possible.sure_learn.holds completes))
      · by_cases ndp : state.ndpEnabled = true ∧ Possible (ofList data) (l2Len - 2) ipv6Type ∧
              ¬ NdpSure state (ofList data) l2Len
        · obtain ⟨enabled, possible, inDoubt⟩ := ndp
          obtain ⟨pkt, carries, completes, refused⟩ :=
            exists_ndp_refused (typed ipv6Type) (behind rfl) inDoubt
          obtain rfl := carries.l2Len
          refine ⟨pkt, carries, fun passes => ?_⟩
          rw [antispoofPasses_iff carries.inBuffer] at passes
          exact refused (passes.2.2.2 enabled (possible.sure_learn.holds completes))
        · refine absurd ⟨mac, rarp, fun enabled possible => ?_,
            fun enabled possible => ?_⟩ notCleared
          · by_contra inDoubt
            exact arp ⟨enabled, possible, inDoubt⟩
          · by_contra inDoubt
            exact ndp ⟨enabled, possible, inDoubt⟩
  · obtain ⟨place, different, late, refutes⟩ := exists_learn_not_holds mac exists_other_byte
    have widened : Extends data (learn (ofList data) place [different]) :=
      extended.learn (by omega) _
    obtain ⟨pkt, carries, completes, _⟩ := widened.packet l2Len 0#8
    refine ⟨pkt, carries, fun passes => ?_⟩
    rw [antispoofPasses_iff carries.inBuffer] at passes
    exact refutes _ completes passes.1

end

end Complete

section Burst

/-- What was sent hands packet `i` on. -/
def Sent.Forwards (sent : Sent ι) (i : Nat) : Prop :=
  ∃ send ∈ sent.sends, send.mask.getLsbD i = true

/-- The loop over a burst clears the packets that do not pass. -/
theorem getLsbD_antispoofFrom (state : AntispoofState) (pkts : Nat → Mbuf)
    (indices : List Nat) (pktsMask : BitVec 64) (i : Nat) :
    (antispoofFrom state pkts indices pktsMask).getLsbD i = true ↔ pktsMask.getLsbD i = true ∧
        (i ∈ indices → antispoofPasses state (pkts i) = true) := by
  induction indices generalizing pktsMask with
  | nil => simp [antispoofFrom]
  | cons index rest ih =>
    unfold antispoofFrom
    by_cases passes : antispoofPasses state (pkts index) = true
    · rw [if_pos passes, ih]
      constructor
      · rintro ⟨isSet, later⟩
        refine ⟨isSet, fun member => ?_⟩
        rcases mem_cons.mp member with rfl | inRest
        · exact passes
        · exact later inRest
      · rintro ⟨isSet, all⟩
        exact ⟨isSet, fun inRest => all (mem_cons_of_mem _ inRest)⟩
    · rw [if_neg passes, ih]
      by_cases here : i = index
      · subst here
        simp [passes]
      · have otherBit : (pktsMask &&& ~~~(1#64 <<< index)).getLsbD i = pktsMask.getLsbD i := by
          show (clear pktsMask index).getLsbD i = pktsMask.getLsbD i
          rw [getLsbD_clear]
          simp [here]
        rw [otherBit]
        simp [here]

variable {brick : Brick ι} {state : AntispoofState} {fromSide : Side} {link : ι} {pairIndex : Nat}

/-- A linked antispoof brick hands on the packets that pass. -/
theorem antispoofBurst_forwards_iff (inside : state.outside ≠ fromSide)
    (linked : (brick.sides (pgFlipSide fromSide)).edges[0]? = some ⟨some link, pairIndex⟩)
    (pkts : Nat → Mbuf) (pktsMask : BitVec 64) (answers : Answers) (i : Nat) :
    (antispoofBurst brick state fromSide pkts pktsMask answers).Forwards i ↔
      pktsMask.getLsbD i = true ∧ antispoofPasses state (pkts i) = true := by
  have kept : (antispoofFrom state pkts (lowBits pktsMask) pktsMask).getLsbD i = true ↔
        pktsMask.getLsbD i = true ∧ antispoofPasses state (pkts i) = true := by
    rw [getLsbD_antispoofFrom]
    refine and_congr_right fun isSet => ?_
    rw [mem_lowBits]
    exact forall_prop_of_true isSet
  rw [← kept]
  unfold antispoofBurst Sent.Forwards
  simp only [inside, ↓reduceIte]
  split
  · rename_i isZero
    simp [isZero]
  · simp [burstOnce, edgeSend, linked]

/--
The data of a packet decides its verdict: two packets with the same data and
the same layer 2 length are both handed on or both dropped, in any two bursts
from the inside.
-/
def DataDecides (brick : Brick ι) (state : AntispoofState) (fromSide : Side)
    (data : List (BitVec 8)) (l2Len : Nat) : Prop :=
  ∀ (pkts others : Nat → Mbuf) (pktsMask othersMask : BitVec 64)
    (answers otherAnswers : Answers) (i j : Nat), pktsMask.getLsbD i = true →
    othersMask.getLsbD j = true → CarriesData data l2Len (pkts i) →
    CarriesData data l2Len (others j) →
    ((antispoofBurst brick state fromSide pkts pktsMask answers).Forwards i ↔
      (antispoofBurst brick state fromSide others othersMask otherAnswers).Forwards j)

/--
The data decides the verdict of a linked antispoof brick exactly when it
surely passes or cannot pass.
-/
theorem antispoof_data_decides_iff (few : state.arps.length ≤ pgArpMax)
    (inside : state.outside ≠ fromSide)
    (linked : (brick.sides (pgFlipSide fromSide)).edges[0]? = some ⟨some link, pairIndex⟩)
    (data : List (BitVec 8)) (l2Len : Nat) :
    DataDecides brick state fromSide data l2Len ↔ Cleared state (ofList data) l2Len ∨
        ¬ Passable state (ofList data) l2Len := by
  constructor
  · intro decides
    by_contra undecided
    rw [not_or, not_not] at undecided
    obtain ⟨passing, carriesPassing, passes⟩ := exists_passes undecided.2
    obtain ⟨refused, carriesRefused, fails⟩ := exists_refused few undecided.1
    have same :=
      decides (fun _ => passing) (fun _ => refused) 1#64 1#64
        (fun _ => 0) (fun _ => 0) 0 0 (by decide) (by decide) carriesPassing carriesRefused
    rw [antispoofBurst_forwards_iff inside linked,
      antispoofBurst_forwards_iff inside linked] at same
    exact fails (same.mp ⟨by decide, passes⟩).2
  · intro decided pkts others pktsMask othersMask answers otherAnswers i j
      isSet otherSet carries otherCarries
    rw [antispoofBurst_forwards_iff inside linked, antispoofBurst_forwards_iff inside linked]
    simp only [isSet, otherSet, true_and]
    rcases decided with cleared | stuck
    · simp only [antispoofPasses_of_cleared cleared carries,
        antispoofPasses_of_cleared cleared otherCarries]
    · constructor
      · exact fun passes => absurd (passable_of_passes carries passes) stuck
      · exact fun passes => absurd (passable_of_passes otherCarries passes) stuck

/-- An antispoof brick with a neighbour on its outside. -/
def spoofBrick : Brick Bool :=
  { blankBrick Bool { name := "antispoof", westMax := 1, eastMax := 1, type := .dipole } with
    west := { max := 1, nb := 0, edges := [.empty] }
    east := { max := 1, nb := 1, edges := [⟨some true, 0⟩] } }

/-- It checks ARP packets, and allows 10.0.0.1. -/
def spoofState : AntispoofState where
  outside := .east
  mac := 0x060504030201#48
  arpEnabled := true
  arps := [0x0100000A#32]
  ndpEnabled := false
  ndps := []

/-- An ARP packet that ends behind its fifth field. -/
def shortArp : List (BitVec 8) :=
  List.replicate 6 0xFF#8 ++ bytesOf 6 spoofState.mac ++ arpType ++ arpStart

/-- The short packet, with some bytes behind it in the buffer. -/
def shortArpPacket (behind : List (BitVec 8)) : Mbuf :=
  packetOf shortArp 14 (fun place =>
      if place < 0 then 0#8 else (shortArp ++ behind).getD place.toNat 0#8)

/-- The same ARP packet with all of its fields, from an IP address. -/
def wholeArp (ip : BitVec 32) : List (BitVec 8) :=
  shortArp ++ [0#8, 1#8] ++ bytesOf 6 spoofState.mac ++ bytesOf 4 ip

/--
A whole ARP packet is handed on or dropped for its own bytes, from the allowed
address or from another one.  Those of a short one do not tell.
-/
theorem antispoof_data_decides_iff_spoof :
    DataDecides spoofBrick spoofState .west (wholeArp 0x0100000A#32) 14 ∧
      DataDecides spoofBrick spoofState .west (wholeArp 0x0200000A#32) 14 ∧
      ¬ DataDecides spoofBrick spoofState .west shortArp 14 := by
  have linked : (spoofBrick.sides (pgFlipSide .west)).edges[0]? = some ⟨some true, 0⟩ := rfl
  have isArp {ip : BitVec 32} : ip ∈ spoofState.arps → ip = 0x0100000A#32 := mem_singleton.mp
  refine ⟨?_, ?_, ?_⟩
  · refine (antispoof_data_decides_iff (by decide) (by decide) linked _ _).mpr (.inl ?_)
    refine ⟨by decide +kernel, by decide +kernel, fun _ _ => ?_, fun enabled => absurd enabled ?_⟩
    · exact ⟨_, mem_singleton_self _, by decide +kernel, by decide +kernel, by decide +kernel⟩
    · decide
  · refine (antispoof_data_decides_iff (by decide) (by decide) linked _ _).mpr (.inr ?_)
    intro passable
    obtain ⟨ip, allowed, _, _, sender⟩ := passable.arp rfl (by decide +kernel)
    rw [isArp allowed] at sender
    exact absurd sender (by decide +kernel)
  · rw [antispoof_data_decides_iff (by decide) (by decide) linked, not_or, not_not]
    constructor
    · intro cleared
      obtain ⟨ip, allowed, _, _, sender⟩ := cleared.arp rfl (by decide +kernel)
      rw [isArp allowed] at sender
      exact absurd sender (by decide +kernel)
    · refine ⟨by decide +kernel, by decide +kernel, fun _ _ => ?_,
        fun enabled => absurd enabled (by decide)⟩
      exact ⟨_, mem_singleton_self _, by decide +kernel, by decide +kernel, by decide +kernel⟩

/--
Two packets with the same short ARP data: one is handed on because of the
bytes that follow it in its buffer, the other is dropped.
-/
theorem short_arp_verdict_varies :
    CarriesData shortArp 14 (shortArpPacket
          ([0#8, 1#8] ++ bytesOf 6 spoofState.mac ++ bytesOf 4 0x0100000A#32)) ∧
      CarriesData shortArp 14 (shortArpPacket []) ∧
      (antispoofBurst spoofBrick spoofState .west (fun _ =>
          shortArpPacket ([0#8, 1#8] ++ bytesOf 6 spoofState.mac ++ bytesOf 4 0x0100000A#32))
        1#64 (fun _ => 0)).Forwards 0 ∧
      ¬ (antispoofBurst spoofBrick spoofState .west
        (fun _ => shortArpPacket []) 1#64 (fun _ => 0)).Forwards 0 := by
  have linked : (spoofBrick.sides (pgFlipSide .west)).edges[0]? = some ⟨some true, 0⟩ := rfl
  refine ⟨⟨?_, rfl, by decide⟩, ⟨?_, rfl, by decide⟩, ?_, ?_⟩
  · decide +kernel
  · decide +kernel
  · rw [antispoofBurst_forwards_iff (by decide) linked]
    exact ⟨by decide, by decide +kernel⟩
  · rw [antispoofBurst_forwards_iff (by decide) linked]
    rintro ⟨_, passes⟩
    exact absurd passes (by decide +kernel)

end Burst

end PacketGraph
