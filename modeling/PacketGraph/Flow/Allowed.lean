import PacketGraph.Flow.Verdict

namespace PacketGraph

open Bytes Function List

/-!
# The allow lists of antispoof bricks

A brick keeps its allowed addresses in two arrays, and the checks it makes on
ARP packets in the records of one of them.  Deleting an address moves the last
record over its own.  To the outside the arrays are multisets of addresses.
-/

section Table

variable {α κ : Type}

/-- An array of records, of which the first ones are in use. -/
structure AllowTable (α : Type) where
  records : Nat → α
  size : Nat

/-- `PG_NPD_MAX`. -/
def pgNpdMax : Nat :=
  100

/-- Add a record behind those in use, unless all places are taken. -/
def AllowTable.add (table : AllowTable α) (max : Nat) (failure : String) (record : α) :
    Except String (AllowTable α) :=
  if table.size = max then
    .error failure
  else
    .ok
      { records := update table.records table.size record
        size := table.size + 1 }

/-- Delete the first record of an address: the last one takes its place. -/
def AllowTable.del [DecidableEq κ] (table : AllowTable α) (failure : String) (key : α → κ)
    (address : κ) : Except String (AllowTable α) :=
  match (List.range table.size).find? (fun i => key (table.records i) = address) with
  | none => .error failure
  | some index =>
    .ok
      { records :=
          if index ≠ table.size - 1 then
            update table.records index (table.records (table.size - 1))
          else
            table.records
        size := table.size - 1 }

/-- The addresses that are held. -/
def AllowTable.held (table : AllowTable α) (key : α → κ) : Multiset κ :=
  (Multiset.range table.size).map (fun i => key (table.records i))

variable {table after : AllowTable α} {key : α → κ} {max : Nat} {failure : String}

theorem AllowTable.card_held (table : AllowTable α) (key : α → κ) :
    (table.held key).card = table.size := by
  simp [AllowTable.held]

variable {record : α}

theorem AllowTable.held_of_add (added : table.add max failure record = .ok after) :
    after.held key = key record ::ₘ table.held key := by
  unfold AllowTable.add at added
  split at added
  · cases added
  · cases added
    simp only [AllowTable.held, Multiset.range_succ, Multiset.map_cons, update_self]
    congr 1
    refine Multiset.map_congr rfl (fun i inside => ?_)
    rw [update_of_ne (Multiset.mem_range.mp inside).ne]

variable {address : κ}

theorem AllowTable.del_error_iff [DecidableEq κ] {message : String} :
    table.del failure key address = .error message ↔
      message = failure ∧ address ∉ table.held key := by
  have absent : (List.range table.size).find? (fun i => key (table.records i) = address) = none ↔
        address ∉ table.held key := by
    simp [AllowTable.held, find?_eq_none]
  unfold AllowTable.del
  rw [← absent]
  split
  · rename_i isNone
    rw [isNone, Except.error.injEq]
    exact ⟨fun same => ⟨same.symm, rfl⟩, fun same => same.1.symm⟩
  · rename_i isSome
    simp [isSome]

theorem AllowTable.held_of_del [DecidableEq κ] (deleted : table.del failure key address = .ok after)
    : after.held key = (table.held key).erase address := by
  unfold AllowTable.del at deleted
  split at deleted
  · cases deleted
  · rename_i index found
    cases deleted
    have isAddress : key (table.records index) = address := by simpa using find?_some found
    have inside := mem_range.mp (mem_of_find?_eq_some found)
    obtain ⟨last, isLast⟩ : ∃ last, table.size = last + 1 := ⟨table.size - 1, by omega⟩
    simp only [AllowTable.held, isLast, Nat.add_sub_cancel, Multiset.range_succ, Multiset.map_cons]
    by_cases atEnd : index = last
    · subst atEnd
      simp [isAddress]
    · -- the record at the index is overwritten, the last one is dropped
      have member : index ∈ Multiset.range last := Multiset.mem_range.mpr (by omega)
      rw [if_pos atEnd, ← Multiset.cons_erase member, Multiset.map_cons, Multiset.map_cons,
        update_self, isAddress, Multiset.cons_swap, Multiset.erase_cons_head]
      congr 1
      refine Multiset.map_congr rfl (fun i isOther => ?_)
      rw [update_of_ne]
      exact ((Multiset.nodup_range last).mem_erase_iff.mp isOther).1

theorem AllowTable.size_of_add (few : table.size ≤ max)
    (added : table.add max failure record = .ok after) : after.size ≤ max := by
  unfold AllowTable.add at added
  split at added
  · cases added
  · cases added
    exact Nat.lt_of_le_of_ne few ‹_›

theorem AllowTable.size_of_del [DecidableEq κ]
    (deleted : table.del failure key address = .ok after) : after.size ≤ table.size := by
  unfold AllowTable.del at deleted
  split at deleted
  · cases deleted
  · cases deleted
    exact Nat.sub_le _ _

/-- A property of the records in use, after the table changed. -/
theorem AllowTable.forall_of_add {holds : α → Prop}
    (added : table.add max failure record = .ok after)
    (all : ∀ i < table.size, holds (table.records i)) (new : holds record) :
    ∀ i < after.size, holds (after.records i) := by
  unfold AllowTable.add at added
  split at added
  · cases added
  · cases added
    intro i inside
    by_cases isNew : i = table.size
    · subst isNew
      simpa using new
    · simpa [update_of_ne isNew] using all i (by simp at inside; omega)

theorem AllowTable.forall_of_del [DecidableEq κ] {holds : α → Prop}
    (deleted : table.del failure key address = .ok after)
    (all : ∀ i < table.size, holds (table.records i)) :
    ∀ i < after.size, holds (after.records i) := by
  unfold AllowTable.del at deleted
  split at deleted
  · cases deleted
  · cases deleted
    rename_i index found
    intro i inside
    have wasInside : i < table.size := by simp at inside; omega
    dsimp only
    split
    · by_cases here : i = index
      · subst here
        rw [update_self]
        exact all _ (by omega)
      · rw [update_of_ne here]
        exact all i wasInside
    · exact all i wasInside

end Table

section Model

/--
The parts of `struct arp` that are written and read: the address, the start of
the prebuilt packet, and its sender.
-/
structure ArpRecord where
  ip : BitVec 32
  start : List (BitVec 8)
  sender : List (BitVec 8)

/-- The record that `pg_antispoof_arp_add` builds. -/
def arpRecord (mac : BitVec 48) (ip : BitVec 32) : ArpRecord where
  ip := ip
  start := bytesOf 2 0x0100#16 ++ bytesOf 2 beEtherTypeIpv4 ++ [6#8, 4#8]
  sender := bytesOf 6 mac ++ bytesOf 4 ip

/-- The private state of an antispoof brick with its arrays. -/
structure AntispoofTables where
  outside : Side
  mac : BitVec 48
  arpEnabled : Bool
  arps : AllowTable ArpRecord
  ndpEnabled : Bool
  ndps : AllowTable (BitVec 128)

/-- `antispoof_init`, on zeroed memory. -/
def antispoofInit (outside : Side) (mac : BitVec 48) : AntispoofTables where
  outside := outside
  mac := mac
  arpEnabled := false
  arps := { records := fun _ => ⟨0#32, [], []⟩, size := 0 }
  ndpEnabled := false
  ndps := { records := fun _ => 0#128, size := 0 }

/-- `antispoof_arp`, on the records. -/
def antispoofArpRecords (tables : AntispoofTables) (pkt : Mbuf) : Bool :=
  let a := pgUtilsGetL3 pkt
  (List.range tables.arps.size).any (fun i => (tables.arps.records i).start = slice pkt.buf a 6 &&
        (tables.arps.records i).sender = slice pkt.buf (a + 8) 10)

/-- The calls that change what is allowed. -/
inductive AllowCall where
  | arpAdd (ip : BitVec 32)
  | arpDel (ip : BitVec 32)
  | arpDelAll
  | arpSet (enabled : Bool)
  | ndpAdd (ip : BitVec 128)
  | ndpDel (ip : BitVec 128)
  | ndpDelAll
  | ndpSet (enabled : Bool)

/-- `pg_antispoof_arp_add` and the other calls. -/
def AllowCall.exec (tables : AntispoofTables) :
    AllowCall → Except String AntispoofTables
  | .arpAdd ip =>
    (tables.arps.add pgArpMax "Maximal IP reached" (arpRecord tables.mac ip)).map
      (fun arps => { tables with arps := arps })
  | .arpDel ip =>
    (tables.arps.del "IP not found" ArpRecord.ip ip).map (fun arps => { tables with arps := arps })
  | .arpDelAll => .ok { tables with arps := { tables.arps with size := 0 } }
  | .arpSet enabled => .ok { tables with arpEnabled := enabled }
  | .ndpAdd ip =>
    (tables.ndps.add pgNpdMax "Maximal IPV6 reached" ip).map
      (fun ndps => { tables with ndps := ndps })
  | .ndpDel ip =>
    (tables.ndps.del "IPV6 not found" id ip).map (fun ndps => { tables with ndps := ndps })
  | .ndpDelAll => .ok { tables with ndps := { tables.ndps with size := 0 } }
  | .ndpSet enabled => .ok { tables with ndpEnabled := enabled }

/-- What a brick is told to allow. -/
structure Allowance where
  arpEnabled : Bool
  arps : Multiset (BitVec 32)
  ndpEnabled : Bool
  ndps : Multiset (BitVec 128)

/-- What the calls should do: add one address, or delete one occurrence. -/
def AllowCall.spec (held : Allowance) : AllowCall → Option Allowance
  | .arpAdd ip => if held.arps.card < 100 then some { held with arps := ip ::ₘ held.arps } else none
  | .arpDel ip => if ip ∈ held.arps then some { held with arps := held.arps.erase ip } else none
  | .arpDelAll => some { held with arps := 0 }
  | .arpSet enabled => some { held with arpEnabled := enabled }
  | .ndpAdd ip => if held.ndps.card < 100 then some { held with ndps := ip ::ₘ held.ndps } else none
  | .ndpDel ip => if ip ∈ held.ndps then some { held with ndps := held.ndps.erase ip } else none
  | .ndpDelAll => some { held with ndps := 0 }
  | .ndpSet enabled => some { held with ndpEnabled := enabled }

/-- The state after some calls; one that fails changes nothing. -/
def runCalls (tables : AntispoofTables) (calls : List AllowCall) : AntispoofTables :=
  calls.foldl (fun tables call => (call.exec tables).toOption.getD tables) tables

/-- What is allowed after some calls. -/
def specCalls (held : Allowance) (calls : List AllowCall) : Allowance :=
  calls.foldl (fun held call => (call.spec held).getD held) held

/-- What a brick allows, as seen from the outside. -/
def AntispoofTables.allowance (tables : AntispoofTables) : Allowance where
  arpEnabled := tables.arpEnabled
  arps := tables.arps.held ArpRecord.ip
  ndpEnabled := tables.ndpEnabled
  ndps := tables.ndps.held id

/-- The state that a burst goes by. -/
def AntispoofTables.state (tables : AntispoofTables) : AntispoofState where
  outside := tables.outside
  mac := tables.mac
  arpEnabled := tables.arpEnabled
  arps := (List.range tables.arps.size).map (fun i => (tables.arps.records i).ip)
  ndpEnabled := tables.ndpEnabled
  ndps := (List.range tables.ndps.size).map tables.ndps.records

/-- ARP packets from the inside with the MAC of the brick are judged as told. -/
def JudgesArps (state : AntispoofState) (arps : Multiset (BitVec 32)) : Prop :=
  ∀ {ι : Type} (brick : Brick ι) (fromSide : Side) (link : ι) (pairIndex : Nat)
    (pkts : Nat → Mbuf) (pktsMask : BitVec 64) (answers : Answers) (i : Nat),
    state.arpEnabled = true → state.outside ≠ fromSide →
    (brick.sides (pgFlipSide fromSide)).edges[0]? = some ⟨some link, pairIndex⟩ →
    pktsMask.getLsbD i = true → load 6 (pkts i).buf ((pkts i).dataOff + 6) = state.mac →
    pgUtilsGetEtherType (pkts i) = 0x0608#16 →
    ((antispoofBurst brick state fromSide pkts pktsMask answers).Forwards i ↔
      slice (pkts i).buf (pgUtilsGetL3 (pkts i)) 6 = arpStart ∧
        load 6 (pkts i).buf (pgUtilsGetL3 (pkts i) + 8) = state.mac ∧
        load 4 (pkts i).buf (pgUtilsGetL3 (pkts i) + 14) ∈ arps)

/-- A brick holds some addresses, answers calls and judges packets by them. -/
structure ActsAs (tables : AntispoofTables) (held : Allowance) : Prop where
  holds : tables.allowance = held
  answers : ∀ call : AllowCall,
      (call.exec tables).toOption.map AntispoofTables.allowance = call.spec held
  checks : ∀ pkt, antispoofArpRecords tables pkt = antispoofArp tables.state pkt
  judges : JudgesArps tables.state held.arps

end Model

section Refinement

/-- The arrays are not overfull, and ARP records are as they were built. -/
structure TablesSound (tables : AntispoofTables) : Prop where
  arps : tables.arps.size ≤ pgArpMax
  ndps : tables.ndps.size ≤ pgNpdMax
  built : ∀ i < tables.arps.size, ∃ ip, tables.arps.records i = arpRecord tables.mac ip

variable {tables : AntispoofTables}

variable {α : Type}

/-- Adding to an array adds to the multiset, unless the array is full. -/
theorem AllowTable.add_refines {κ : Type} {table : AllowTable α} {max : Nat}
    (few : table.size ≤ max) (key : α → κ) (failure : String) (record : α) :
    (table.add max failure record).toOption.map (fun after => after.held key) =
      if (table.held key).card < max then some (key record ::ₘ table.held key)
      else none := by
  rw [AllowTable.card_held]
  cases added : table.add max failure record with
  | error message =>
    have isFull : ¬ table.size < max := by
      unfold AllowTable.add at added
      split at added
      · omega
      · cases added
    rw [if_neg isFull]
    rfl
  | ok after =>
    have isRoom : table.size < max := by
      unfold AllowTable.add at added
      split at added
      · cases added
      · omega
    rw [if_pos isRoom, ← AllowTable.held_of_add added]
    rfl

/-- Deleting from an array deletes one occurrence from the multiset. -/
theorem AllowTable.del_refines {κ : Type} [DecidableEq κ] (table : AllowTable α) (key : α → κ)
    (failure : String) (address : κ) :
    (table.del failure key address).toOption.map (fun after => after.held key) =
      if address ∈ table.held key then some ((table.held key).erase address)
      else none := by
  cases deleted : table.del failure key address with
  | error message =>
    rw [if_neg (AllowTable.del_error_iff.mp deleted).2]
    rfl
  | ok after =>
    have isHeld : address ∈ table.held key := by
      by_contra absent
      rw [AllowTable.del_error_iff.mpr ⟨rfl, absent⟩] at deleted
      cases deleted
    rw [if_pos isHeld, ← AllowTable.held_of_del deleted]
    rfl

/-- Replacing one of the arrays by the result of a call. -/
theorem map_allowance {β : Type} (result : Except String α) (put : α → AntispoofTables)
    (view : α → β) (change : β → Allowance)
    (puts : ∀ table, (put table).allowance = change (view table)) :
    (result.map put).toOption.map AntispoofTables.allowance =
      (result.toOption.map view).map change := by
  cases result with
  | error message => rfl
  | ok table => exact congrArg some (puts table)

/-- Every call does to the arrays what it should do to the multisets. -/
theorem AllowCall.exec_refines (sound : TablesSound tables) (call : AllowCall) :
    (call.exec tables).toOption.map AntispoofTables.allowance = call.spec tables.allowance := by
  let putArps (arps : Multiset (BitVec 32)) : Allowance := { tables.allowance with arps := arps }
  let putNdps (ndps : Multiset (BitVec 128)) : Allowance := { tables.allowance with ndps := ndps }
  cases call with
  | arpAdd ip =>
    refine (map_allowance _ _ (fun arps => arps.held ArpRecord.ip) putArps (fun _ => rfl)).trans ?_
    rw [AllowTable.add_refines sound.arps, apply_ite (Option.map putArps)]
    rfl
  | arpDel ip =>
    refine (map_allowance _ _ (fun arps => arps.held ArpRecord.ip) putArps (fun _ => rfl)).trans ?_
    rw [AllowTable.del_refines, apply_ite (Option.map putArps)]
    rfl
  | arpDelAll | arpSet enabled => rfl
  | ndpAdd ip =>
    refine (map_allowance _ _ (fun ndps => ndps.held id) putNdps (fun _ => rfl)).trans ?_
    rw [AllowTable.add_refines sound.ndps, apply_ite (Option.map putNdps)]
    rfl
  | ndpDel ip =>
    refine (map_allowance _ _ (fun ndps => ndps.held id) putNdps (fun _ => rfl)).trans ?_
    rw [AllowTable.del_refines, apply_ite (Option.map putNdps)]
    rfl
  | ndpDelAll | ndpSet enabled => rfl

theorem exists_of_map_eq_ok {β : Type} {result : Except String α} {put : α → β} {after : β}
    (ran : result.map put = .ok after) : ∃ value, result = .ok value ∧ put value = after := by
  cases result with
  | error message => cases ran
  | ok value => exact ⟨value, rfl, Except.ok.inj ran⟩

section

variable (sound : TablesSound tables)

include sound

/-- Every call keeps the arrays sound. -/
theorem TablesSound.exec {call : AllowCall} {after : AntispoofTables}
    (ran : call.exec tables = .ok after) : TablesSound after := by
  obtain ⟨fewArps, fewNdps, built⟩ := sound
  let isBuilt (record : ArpRecord) : Prop := ∃ ip, record = arpRecord tables.mac ip
  cases call with
  | arpAdd ip =>
    obtain ⟨arps, added, rfl⟩ := exists_of_map_eq_ok ran
    have new : isBuilt (arpRecord tables.mac ip) := ⟨ip, rfl⟩
    exact ⟨AllowTable.size_of_add fewArps added, fewNdps, AllowTable.forall_of_add added built new⟩
  | arpDel ip =>
    obtain ⟨arps, deleted, rfl⟩ := exists_of_map_eq_ok ran
    have kept : ∀ i < arps.size, isBuilt (arps.records i) := AllowTable.forall_of_del deleted built
    exact ⟨(AllowTable.size_of_del deleted).trans fewArps, fewNdps, kept⟩
  | arpDelAll =>
    cases ran
    exact ⟨Nat.zero_le _, fewNdps, fun i inside => absurd inside (Nat.not_lt_zero i)⟩
  | arpSet enabled =>
    cases ran
    exact ⟨fewArps, fewNdps, built⟩
  | ndpAdd ip =>
    obtain ⟨ndps, added, rfl⟩ := exists_of_map_eq_ok ran
    exact ⟨fewArps, AllowTable.size_of_add fewNdps added, built⟩
  | ndpDel ip =>
    obtain ⟨ndps, deleted, rfl⟩ := exists_of_map_eq_ok ran
    exact ⟨fewArps, (AllowTable.size_of_del deleted).trans fewNdps, built⟩
  | ndpDelAll =>
    cases ran
    exact ⟨fewArps, Nat.zero_le _, built⟩
  | ndpSet enabled =>
    cases ran
    exact ⟨fewArps, fewNdps, built⟩

/-- After any calls, the arrays are sound and hold what they should. -/
theorem runCalls_refines (calls : List AllowCall) :
    TablesSound (runCalls tables calls) ∧
      (runCalls tables calls).allowance = specCalls tables.allowance calls := by
  induction calls generalizing tables with
  | nil => exact ⟨sound, rfl⟩
  | cons call rest ih =>
    have refined := call.exec_refines sound
    unfold runCalls specCalls
    rw [foldl_cons, foldl_cons, ← refined]
    cases ran : call.exec tables with
    | error message => exact ih sound
    | ok after => exact ih (sound.exec ran)

/-- The prebuilt records stand for the addresses. -/
theorem antispoofArpRecords_eq (pkt : Mbuf) :
    antispoofArpRecords tables pkt = antispoofArp tables.state pkt := by
  unfold antispoofArpRecords antispoofArp
  simp only [AntispoofTables.state, any_map]
  rw [Bool.eq_iff_iff, any_eq_true, any_eq_true]
  refine exists_congr (fun i => and_congr_right (fun inside => ?_))
  obtain ⟨ip, isRecord⟩ := sound.built i (mem_range.mp inside)
  have start : (arpRecord tables.mac ip).start = arpStart := by
    simp only [arpRecord, arpStart, beEtherTypeIpv4]
    decide
  have sender : (arpRecord tables.mac ip).sender = slice pkt.buf (pgUtilsGetL3 pkt + 8) (6 + 4) ↔
        load 6 pkt.buf (pgUtilsGetL3 pkt + 8) = tables.mac ∧
          load 4 pkt.buf (pgUtilsGetL3 pkt + 14) = ip := by
    rw [slice_add, ← slice_eq_bytesOf_iff, ← slice_eq_bytesOf_iff, eq_comm]
    constructor
    · exact fun same => append_inj same (by simp)
    · rintro ⟨isMac, isIp⟩
      rw [isMac, isIp]
      rfl
  simp only [isRecord, start, comp_apply, Bool.and_eq_true, decide_eq_true_eq, sender]
  rw [eq_comm, and_assoc]
  exact and_congr_right (fun _ => and_congr_left (fun _ => (decide_eq_true_iff).symm))

end

/-- A brick judges ARP packets by the addresses it holds. -/
theorem judgesArps_state (tables : AntispoofTables) :
    JudgesArps tables.state tables.allowance.arps := by
  intro ι brick fromSide link pairIndex pkts pktsMask answers i enabled inside linked isIn
    isMac isArp
  rw [antispoofBurst_forwards_iff inside linked]
  have passes : antispoofPasses tables.state (pkts i) = antispoofArp tables.state (pkts i) := by
    unfold antispoofPasses
    simp [isMac, isArp, enabled, beEtherTypeIpv6]
  have held (ip : BitVec 32) : ip ∈ tables.allowance.arps ↔ ip ∈ tables.state.arps := by
    simp [AntispoofTables.allowance, AntispoofTables.state, AllowTable.held]
  simp only [isIn, true_and, passes, held, antispoofArp, any_eq_true, Bool.and_eq_true,
    decide_eq_true_eq, arpStart]
  constructor
  · rintro ⟨ip, member, ⟨start, sender⟩, isIp⟩
    exact ⟨start, sender, isIp ▸ member⟩
  · rintro ⟨start, sender, member⟩
    exact ⟨_, member, ⟨start, sender⟩, rfl⟩

end Refinement

/-- Whatever was called before, the allow lists are multisets of addresses. -/
theorem allow_lists_are_multisets (outside : Side) (mac : BitVec 48) (calls : List AllowCall) :
    ActsAs (runCalls (antispoofInit outside mac) calls) (specCalls ⟨false, 0, false, 0⟩ calls) := by
  have start : TablesSound (antispoofInit outside mac) :=
    ⟨Nat.zero_le _, Nat.zero_le _, fun i inside => absurd inside (Nat.not_lt_zero i)⟩
  obtain ⟨sound, isHeld⟩ := runCalls_refines start calls
  have isHeld' : _ = specCalls ⟨false, 0, false, 0⟩ calls := isHeld
  refine ⟨isHeld', fun call => ?_, antispoofArpRecords_eq sound, ?_⟩
  · rw [← isHeld']
    exact call.exec_refines sound
  · rw [← isHeld']
    exact judgesArps_state _

end PacketGraph
