import PacketGraph.Flow.Polls

namespace PacketGraph

open BitScan List

/-!
# What vhost and nic bricks transmit

A burst is packed into a second array and offered to a guest or to a driver,
which accepts a prefix of what it is offered.  A vhost makes at most two such
calls and counts the bytes afterwards, over the array that was not packed.  A
nic takes a reference on every packet and gives back those of the rest.
-/

variable {π : Type}

/-- `pg_packets_pack`. -/
def pgPacketsPack (src : Nat → π) (pktsMask : BitVec 64) : List π :=
  (lowBits pktsMask).map src

/--
What is known of `rte_vhost_enqueue_burst`, which is given by the number of
packets it accepts at each call: they are the first of those it is offered.
-/
def AcceptsOffered (rteVhostEnqueueBurst : Nat → List π → Nat) : Prop :=
  ∀ call out, rteVhostEnqueueBurst call out ≤ out.length

/-- The lengths of some packets together. -/
def totalLength (pktLen : π → BitVec 32) (pkts : List π) : BitVec 64 :=
  (pkts.map (fun pkt => (pktLen pkt).setWidth 64)).sum

/-- The loop that counts the bytes of the first packets of an array. -/
def countBytes (pktLen : π → BitVec 32) (pkts : Nat → π) : Nat → BitVec 64
  | 0 => 0#64
  | i + 1 => countBytes pktLen pkts i + (pktLen (pkts i)).setWidth 64

/-- What a burst to a vhost does. -/
structure Transmitted (π : Type) where
  /-- The arrays handed to `rte_vhost_enqueue_burst`. -/
  offered : List (List π)
  accepted : List π
  /-- The indices of the packets whose length is read. -/
  lengthsRead : List Nat
  txBytes : BitVec 64

/--
`vhost_burst`.  The lock is tried if `checkAtomic` is set, and `unlocked` tells
whether it is free.
-/
def vhostBurst (rteVhostEnqueueBurst : Nat → List π → Nat) (checkAtomic unlocked : Bool)
    (pktLen : π → BitVec 32) (txBytes : BitVec 64) (pkts : Nat → π) (pktsMask : BitVec 64) :
    Transmitted π :=
  if checkAtomic ∧ ¬ unlocked then
    { offered := [], accepted := [], lengthsRead := [], txBytes := txBytes }
  else
    let out := pgPacketsPack pkts pktsMask
    if 32 < out.length then
      let first := rteVhostEnqueueBurst 0 (out.take 32)
      let second := rteVhostEnqueueBurst 1 (out.drop 32)
      { offered := [out.take 32, out.drop 32]
        accepted := (out.take 32).take first ++ (out.drop 32).take second
        lengthsRead := List.range (first + second)
        txBytes := txBytes + countBytes pktLen pkts (first + second) }
    else
      let first := rteVhostEnqueueBurst 0 out
      { offered := [out]
        accepted := out.take first
        lengthsRead := List.range first
        txBytes := txBytes + countBytes pktLen pkts first }

/-- A burst offers its packets in order and counts the bytes accepted. -/
structure AccountsFor (pktLen : π → BitVec 32) (txBytes : BitVec 64) (pkts : Nat → π)
    (pktsMask : BitVec 64) (burst : Transmitted π) : Prop where
  offers : burst.offered.flatten = (lowBits pktsMask).map pkts
  counts : burst.txBytes = txBytes + totalLength pktLen burst.accepted
  inside : ∀ i ∈ burst.lengthsRead, pktsMask.getLsbD i = true

/--
The packets accepted are the first ones of the array, in place of which others
of the same length may stand after a first call that did not accept them all.
-/
def CountedInPlace (rteVhostEnqueueBurst : Nat → List π → Nat) (pktLen : π → BitVec 32)
    (pkts : Nat → π) (pktsMask : BitVec 64) : Prop :=
  let out := pgPacketsPack pkts pktsMask
  let first := rteVhostEnqueueBurst 0 (out.take 32)
  let second := rteVhostEnqueueBurst 1 (out.drop 32)
  (∀ i < first + second, pktsMask.getLsbD i = true) ∧
    (first = 32 ∨ second = 0 ∨ totalLength pktLen ((out.drop first).take second) =
        totalLength pktLen ((out.drop 32).take second))

theorem totalLength_append (pktLen : π → BitVec 32) (pkts more : List π) :
    totalLength pktLen (pkts ++ more) = totalLength pktLen pkts + totalLength pktLen more := by
  simp [totalLength]

/-- The loop adds up the lengths at the start of the array. -/
theorem countBytes_eq (pktLen : π → BitVec 32) (pkts : Nat → π) (count : Nat) :
    countBytes pktLen pkts count = totalLength pktLen ((List.range count).map pkts) := by
  induction count with
  | zero => rfl
  | succ count ih =>
    rw [range_succ, map_append, totalLength_append, countBytes, ih]
    simp [totalLength]

/-- One call or two: what is offered, accepted and counted. -/
theorem vhostBurst_eq {rteVhostEnqueueBurst : Nat → List π → Nat}
    (acceptsOffered : AcceptsOffered rteVhostEnqueueBurst) (checkAtomic : Bool)
    (pktLen : π → BitVec 32) (txBytes : BitVec 64) (pkts : Nat → π) (pktsMask : BitVec 64)
    {out : List π} {first second : Nat}
    (isOut : pgPacketsPack pkts pktsMask = out)
    (isFirst : rteVhostEnqueueBurst 0 (out.take 32) = first)
    (isSecond : rteVhostEnqueueBurst 1 (out.drop 32) = second) :
    let burst :=
      vhostBurst rteVhostEnqueueBurst checkAtomic true pktLen txBytes pkts pktsMask
    burst.offered.flatten = out ∧ burst.accepted = out.take first ++ (out.drop 32).take second ∧
      burst.lengthsRead = List.range (first + second) ∧
      burst.txBytes = txBytes + countBytes pktLen pkts (first + second) := by
  unfold vhostBurst
  simp only [not_true_eq_false, and_false, ↓reduceIte, isOut, isFirst, isSecond]
  have below : first ≤ 32 := by
    have accepted := acceptsOffered 0 (out.take 32)
    rw [isFirst, length_take] at accepted
    omega
  by_cases isLong : 32 < out.length
  · rw [if_pos isLong]
    simp [take_take, Nat.min_eq_left below]
  · have isShort : out.length ≤ 32 := Nat.not_lt.mp isLong
    rw [take_of_length_le isShort] at isFirst
    rw [drop_of_length_le isShort] at isSecond ⊢
    have noMore : second = 0 := Nat.le_zero.mp (isSecond ▸ acceptsOffered 1 [])
    rw [if_neg isLong, isFirst, noMore]
    simp

/--
A burst to a connected vhost is accounted for exactly if the packets accepted
are counted in place.
-/
theorem vhost_burst_accounts_iff {rteVhostEnqueueBurst : Nat → List π → Nat}
    (acceptsOffered : AcceptsOffered rteVhostEnqueueBurst) (checkAtomic : Bool)
    (pktLen : π → BitVec 32) (txBytes : BitVec 64) (pkts : Nat → π) (pktsMask : BitVec 64) :
    AccountsFor pktLen txBytes pkts pktsMask
        (vhostBurst rteVhostEnqueueBurst checkAtomic true pktLen txBytes pkts pktsMask) ↔
      CountedInPlace rteVhostEnqueueBurst pktLen pkts pktsMask := by
  simp only [CountedInPlace]
  generalize isOut : pgPacketsPack pkts pktsMask = out
  generalize isFirst : rteVhostEnqueueBurst 0 (out.take 32) = first
  generalize isSecond : rteVhostEnqueueBurst 1 (out.drop 32) = second
  obtain ⟨offers, accepts, reads, counts⟩ :=
    vhostBurst_eq acceptsOffered checkAtomic pktLen txBytes pkts pktsMask isOut isFirst isSecond
  -- while the masked packets come first, the loop counts the packed ones
  have inPlace (inside : ∀ i < first + second, pktsMask.getLsbD i = true) :
      countBytes pktLen pkts (first + second) = totalLength pktLen (out.take first) +
          totalLength pktLen ((out.drop first).take second) := by
    have within : first + second ≤ 64 := by
      by_contra beyond
      have isSet := inside 64 (by omega)
      simp at isSet
    obtain ⟨rest, isRest⟩ := range_prefix_lowBits within inside
    have isStart : (List.range (first + second)).map pkts = out.take (first + second) := by
      rw [← isOut, pgPacketsPack, ← isRest, map_append, take_left' (by simp)]
    rw [countBytes_eq, isStart, take_add, totalLength_append]
  constructor
  · intro accounts
    have inside : ∀ i < first + second, pktsMask.getLsbD i = true := by
      intro i below
      exact accounts.inside i (reads ▸ mem_range.mpr below)
    have same := accounts.counts
    rw [counts, accepts, totalLength_append, inPlace inside] at same
    exact ⟨inside, .inr (.inr (add_left_cancel (add_left_cancel same)))⟩
  · rintro ⟨inside, sameLength⟩
    have same : totalLength pktLen ((out.drop first).take second) =
        totalLength pktLen ((out.drop 32).take second) := by
      rcases sameLength with rfl | rfl | same
      · rfl
      · rfl
      · exact same
    refine ⟨offers.trans isOut.symm, ?_, ?_⟩
    · rw [counts, accepts, totalLength_append, inPlace inside, same]
    · intro i member
      rw [reads] at member
      exact inside i (mem_range.mp member)

/-- A guest with room for some packets at every call. -/
def guestWithRoom (room : Nat) (_ : Nat) (out : List π) : Nat :=
  min room out.length

theorem guestWithRoom_accepts (room : Nat) : AcceptsOffered (@guestWithRoom π room) :=
  fun _ _ => Nat.min_le_right _ _

/--
Of three packets at the start of the array a guest takes two, and their bytes
are counted.
-/
theorem vhost_burst_accounts_iff_room :
    AccountsFor id 7#64 (fun i => if i = 0 then 60#32 else 1500#32) 7#64
      (vhostBurst (guestWithRoom 2) true true id 7#64
        (fun i => if i = 0 then 60#32 else 1500#32) 7#64) := by
  refine (vhost_burst_accounts_iff (guestWithRoom_accepts 2) ..).mpr ⟨?_, .inr (.inl ?_)⟩
  · decide +kernel
  · decide +kernel

/--
Of two packets of 60 and 1500 bytes, the second is sent and accepted: the bytes
of the first are counted.
-/
theorem sparse_burst_counts_other :
    let pkts : Nat → BitVec 32 := fun i => if i = 0 then 60#32 else 1500#32
    let burst := vhostBurst (guestWithRoom 64) true true id 0#64 pkts 2#64
    burst.accepted = [1500#32] ∧ burst.txBytes = 60#64 ∧ burst.lengthsRead = [0] ∧
      ¬ AccountsFor id 0#64 pkts 2#64 burst := by
  refine ⟨by decide +kernel, by decide +kernel, by decide +kernel, fun accounts => ?_⟩
  exact absurd accounts.counts (by decide +kernel)

section Nic

variable {μ : Type}

/-- The loop of `pg_packets_pack`, from an index of `dst` on. -/
def packFrom (src : Nat → μ) : List Nat → (Nat → μ) → Nat → (Nat → μ) × Nat
  | [], dst, i => (dst, i)
  | j :: rest, dst, i => packFrom src rest (Function.update dst i (src j)) (i + 1)

/-- The packed packets stand in `dst` from the index on. -/
theorem packFrom_eq (src : Nat → μ) (places : List Nat) (dst : Nat → μ) (i : Nat) :
    (packFrom src places dst i).2 = i + places.length ∧
      ∀ place, (packFrom src places dst i).1 place =
        if place < i then dst place else ((places.map src)[place - i]?).getD (dst place) := by
  induction places generalizing dst i with
  | nil => exact ⟨rfl, fun place => by simp [packFrom]⟩
  | cons j rest ih =>
    obtain ⟨count, stored⟩ := ih (Function.update dst i (src j)) (i + 1)
    refine ⟨count.trans (by simp; omega), fun place => ?_⟩
    rw [packFrom, stored]
    rcases Nat.lt_trichotomy place i with before | rfl | behind
    · rw [if_pos (by omega), if_pos before, Function.update_of_ne (by omega)]
    · simp
    · have next : place - i = place - (i + 1) + 1 := by omega
      rw [if_neg (by omega), if_neg (by omega), Function.update_of_ne (by omega), next, map_cons,
        getElem?_cons_succ]

variable [DecidableEq μ]

/-- The loops of `pg_packets_incref` and of `pg_packets_free` over reference counts. -/
def countRefs (change : Int) (pkts : Nat → μ) (pktsMask : BitVec 64) (refs : μ → Int) : μ → Int :=
  (lowBits pktsMask).foldl
    (fun refs i => Function.update refs (pkts i) (refs (pkts i) + change)) refs

/-- Every place of a packet changes its count once. -/
theorem countRefs_eq (change : Int) (pkts : Nat → μ) (pktsMask : BitVec 64) (refs : μ → Int)
    (pkt : μ) :
    countRefs change pkts pktsMask refs pkt =
      refs pkt + change * ((lowBits pktsMask).map pkts).count pkt := by
  unfold countRefs
  induction lowBits pktsMask generalizing refs with
  | nil => simp
  | cons i rest ih =>
    rw [foldl_cons, ih, map_cons, count_cons, Function.update_apply]
    by_cases isHere : pkt = pkts i
    · subst isHere
      simp
      ring
    · simp [isHere, Ne.symm isHere]

/-- What a burst to a nic leaves: its array and the reference counts. -/
structure HandedOver (μ : Type) where
  count : Nat
  exitPkts : Nat → μ
  accepted : List μ
  refs : μ → Int

/--
`nic_burst`, where the driver has room for some packets.  The caller holds a
reference on each packet, so that freeing one lowers its count only.
-/
def nicBurst (exitPkts pkts : Nat → μ) (pktsMask : BitVec 64) (room : Nat) (refs : μ → Int) :
    HandedOver μ :=
  let packed := packFrom pkts (lowBits pktsMask) exitPkts 0
  let refs := countRefs 1 pkts pktsMask refs
  let pktsBursted := min room packed.2
  { count := packed.2
    exitPkts := packed.1
    accepted := (List.range pktsBursted).map packed.1
    refs :=
      if pktsBursted < packed.2 then
        countRefs (-1) packed.1 (pgMaskFirsts packed.2 &&& ~~~pgMaskFirsts pktsBursted) refs
      else
        refs }

/-- The places of an array between two counts. -/
theorem lowBits_between {first count : Nat} (inBurst : count ≤ pgMaxPktsBurst)
    (fewer : first ≤ count) :
    (lowBits (pgMaskFirsts count &&& ~~~pgMaskFirsts first)).Perm
      (List.range' first (count - first)) := by
  have isFirsts {bound : Nat} (small : bound ≤ pgMaxPktsBurst) (place : Nat) :
      (pgMaskFirsts bound).getLsbD place = true ↔ place < bound := by
    rw [← mem_lowBits, lowBits_pgMaskFirsts small, mem_range]
  refine (perm_ext_iff_of_nodup (lowBits_nodup _) nodup_range').mpr (fun place => ?_)
  have inside := isFirsts inBurst place
  have outside := isFirsts (fewer.trans inBurst) place
  rw [mem_lowBits, BitVec.getLsbD_and, BitVec.getLsbD_not, mem_range'_1, Bool.and_eq_true, inside,
    Bool.and_eq_true, decide_eq_true_eq, Bool.not_eq_true', ← Bool.not_eq_true, outside]
  unfold pgMaxPktsBurst at inBurst
  omega

/--
`pg_packets_pack` writes the masked packets in the order of their bits and
counts them.  `nic_burst` then leaves one more reference on a packet for each
of its places that was accepted, and no other.
-/
theorem nic_burst_hands_over (exitPkts pkts : Nat → μ) (pktsMask : BitVec 64) (room : Nat)
    (refs : μ → Int) : let packets := ((List.range 64).filter pktsMask.getLsbD).map pkts
    let burst := nicBurst exitPkts pkts pktsMask room refs
    burst.count = (List.range 64).countP pktsMask.getLsbD ∧
      (∀ place, burst.exitPkts place = (packets[place]?).getD (exitPkts place)) ∧
      burst.accepted = packets.take room ∧
      ∀ pkt, burst.refs pkt = refs pkt + burst.accepted.count pkt := by
  have isPlaces : lowBits pktsMask = (List.range 64).filter pktsMask.getLsbD :=
    lowBits_eq_setPositions pktsMask
  obtain ⟨isCount, isStored⟩ := packFrom_eq pkts (lowBits pktsMask) exitPkts 0
  have inBurst : (lowBits pktsMask).length ≤ pgMaxPktsBurst := by
    rw [isPlaces]
    exact (length_filter_le _ _).trans (by simp [pgMaxPktsBurst])
  rw [← isPlaces, countP_eq_length_filter, ← isPlaces]
  dsimp only [nicBurst]
  simp only [Nat.zero_add, Nat.not_lt_zero, if_false, Nat.sub_zero] at isCount isStored
  rw [isCount]
  generalize isPackets : (lowBits pktsMask).map pkts = packets at isStored
  have isLength : (lowBits pktsMask).length = packets.length := by rw [← isPackets, length_map]
  -- a stretch of the array holds the packets of that stretch
  have stretch (start length : Nat) (inside : start + length ≤ packets.length) :
      (List.range' start length).map (packFrom pkts (lowBits pktsMask) exitPkts 0).1 =
        (packets.drop start).take length := by
    apply ext_getElem?
    intro place
    by_cases within : place < length
    · have isPacket := List.getElem?_eq_getElem (show start + place < packets.length by omega)
      simp [isStored, within, isPacket]
    · simp [within]
  rw [isLength] at inBurst ⊢
  have accepts : (List.range (min room packets.length)).map
      (packFrom pkts (lowBits pktsMask) exitPkts 0).1 = packets.take room := by
    rw [range_eq_range', stretch _ _ (by omega), drop_zero, ← take_eq_take_min]
  refine ⟨rfl, isStored, accepts, fun pkt => ?_⟩
  have split := congrArg (List.count pkt) (take_append_drop (min room packets.length) packets)
  rw [count_append] at split
  rw [accepts, take_eq_take_min]
  by_cases fewer : min room packets.length < packets.length
  · rw [if_pos fewer, countRefs_eq, countRefs_eq, isPackets,
      ((lowBits_between inBurst (Nat.min_le_right _ _)).map _).count_eq, stretch _ _ (by omega),
      take_of_length_le (by simp)]
    omega
  · rw [if_neg fewer, countRefs_eq, isPackets, one_mul, Nat.min_eq_right (by omega), take_length]

end Nic

end PacketGraph
