import PacketGraph.Queue.Pair

namespace PacketGraph

open BitScan Function List TransitionSystem

/-!
# What comes out of two friend queues

The bursts leave a queue in the order they were made, and each reference that
was taken is given back once.  That the packets of a burst are still the ones
that were sent rests on the sender: it must not write into the entries of its
array that a burst not yet done with refers to.
-/

section Views

variable {π μ : Type}

/-- The burst that the sender throws away. -/
def BurstPhase.dropped? : BurstPhase π → Option (Waiting π)
  | .dropping old _ => some old
  | _ => none

/-- Does the sender know that there is room for its burst? -/
def BurstPhase.hasRoom : BurstPhase π → Bool
  | .dropping _ _ => true
  | .room _ => true
  | .counted _ => true
  | _ => false

/-- The burst that is being polled. -/
def PollPhase.held? : PollPhase π → Option (Waiting π)
  | .idle => none
  | .popped old => some old
  | .forwarded old => some old

/-- The polled burst that is not forwarded yet. -/
def PollPhase.popped? : PollPhase π → Option (Waiting π)
  | .popped old => some old
  | _ => none

/-- The burst that the sender has not put into the queue yet. -/
def BurstPhase.current? : BurstPhase π → Option (QueueBurst π)
  | .idle => none
  | .called burst => some burst
  | .full burst => some burst
  | .dropping _ burst => some burst
  | .room burst => some burst
  | .counted burst => some burst

/-- The number of the burst that is not in the queue yet. -/
def QueuePair.entering (pair : QueuePair π μ) : List Nat :=
  match pair.sender with
  | .idle => []
  | _ => [pair.current]

/-- The number of the burst whose references are not taken yet. -/
def QueuePair.uncounted (pair : QueuePair π μ) : List Nat :=
  match pair.sender with
  | .idle => []
  | .counted _ => []
  | _ => [pair.current]

/-- The bursts that are out of the queue and not done with. -/
def QueuePair.held (pair : QueuePair π μ) : List (Waiting π) :=
  pair.sender.dropped?.toList ++ pair.poller.held?.toList

/-- A burst that is not done with. -/
def QueuePair.Live (pair : QueuePair π μ) (entry : Waiting π) : Prop :=
  entry ∈ pair.rx ∨ pair.sender.dropped? = some entry ∨ pair.poller.held? = some entry

def QueueEvent.left? : QueueEvent μ → Option Nat
  | .dropped number _ => some number
  | .popped number => some number
  | _ => none

def QueueEvent.popped? : QueueEvent μ → Option Nat
  | .popped number => some number
  | _ => none

def QueueEvent.forwarded? : QueueEvent μ → Option Nat
  | .forwarded number _ _ => some number
  | _ => none

def QueueEvent.took? : QueueEvent μ → Option Nat
  | .took number _ => some number
  | _ => none

def QueueEvent.released? : QueueEvent μ → Option Nat
  | .released number _ => some number
  | _ => none

attribute [simp] BurstPhase.dropped? BurstPhase.hasRoom BurstPhase.current? PollPhase.held?
  PollPhase.popped? QueuePair.current QueuePair.entering QueuePair.uncounted QueuePair.held
  QueueEvent.left? QueueEvent.popped? QueueEvent.forwarded? QueueEvent.took? QueueEvent.released?

end Views

section Moves

variable {π μ : Type} [DecidableEq π]

/-- What a step can be. -/
inductive QueueMove : QueuePair π μ → QueueLabel π μ → QueuePair π μ → Prop where
  | stays {pair : QueuePair π μ} : QueueMove pair .pop pair
  | calls {pair : QueuePair π μ} {pkts : π} {mask : BitVec 64} : pair.sender = .idle →
      QueueMove pair (.burst pkts mask) { pair with
          sender := .called { pkts := pkts, mask := mask }
          sent :=
            pair.sent ++ [(mask, packetsOf pair.memory { pkts := pkts, mask := mask })] }
  | findsFull {pair : QueuePair π μ} {burst : QueueBurst π} : pair.sender = .called burst →
      pair.rxMaxSize.toInt ≤ (pair.rx.length : Int) →
      QueueMove pair .checkLength { pair with sender := .full burst }
  | findsRoom {pair : QueuePair π μ} {burst : QueueBurst π} : pair.sender = .called burst →
      (pair.rx.length : Int) < pair.rxMaxSize.toInt →
      QueueMove pair .checkLength { pair with sender := .room burst }
  | dropsNone {pair : QueuePair π μ} {burst : QueueBurst π} : pair.sender = .full burst →
      pair.rx = [] → QueueMove pair .dropOldest { pair with sender := .room burst }
  | drops {pair : QueuePair π μ} {burst : QueueBurst π} {old : Waiting π}
      {rest : List (Waiting π)} : pair.sender = .full burst → pair.rx = old :: rest →
      QueueMove pair .dropOldest { pair with
          rx := rest
          sender := .dropping old burst
          log := pair.log ++ [.dropped old.number pair.rx.length] }
  | freesDropped {pair : QueuePair π μ} {burst : QueueBurst π} {old : Waiting π} :
      pair.sender = .dropping old burst → QueueMove pair .freeDropped { pair with
          sender := .room burst
          log :=
            pair.log ++ [.released old.number (packetsOf pair.memory old.burst)] }
  | counts {pair : QueuePair π μ} {burst : QueueBurst π} : pair.sender = .room burst →
      QueueMove pair .incref { pair with
          sender := .counted burst
          log :=
            pair.log ++ [.took pair.current (packetsOf pair.memory burst)] }
  | pushes {pair : QueuePair π μ} {burst : QueueBurst π} : pair.sender = .counted burst →
      QueueMove pair .push { pair with
          rx := pair.rx ++ [{ number := pair.current, burst := burst }]
          sender := .idle }
  | pops {pair : QueuePair π μ} {old : Waiting π} {rest : List (Waiting π)} : pair.poller = .idle →
      pair.rx = old :: rest → QueueMove pair .pop { pair with
          rx := rest
          poller := .popped old
          log := pair.log ++ [.popped old.number] }
  | forwards {pair : QueuePair π μ} {old : Waiting π} : pair.poller = .popped old →
      QueueMove pair .forward { pair with
          poller := .forwarded old
          log :=
            pair.log ++ [.forwarded old.number old.burst.mask (packetsOf pair.memory old.burst)] }
  | freesPolled {pair : QueuePair π μ} {old : Waiting π} : pair.poller = .forwarded old →
      QueueMove pair .freePolled { pair with
          poller := .idle
          log :=
            pair.log ++ [.released old.number (packetsOf pair.memory old.burst)] }
  | writes {pair : QueuePair π μ} {pkts : π} {index : Nat} {packet : μ} : pair.sender = .idle →
      QueueMove pair (.overwrite pkts index packet) { pair with
          memory :=
            update pair.memory pkts (update (pair.memory pkts) index packet) }

theorem QueuePair.move_of_step {before after : QueuePair π μ} {label : QueueLabel π μ}
    (stepped : before.step label = some after) : QueueMove before label after := by
  cases label with
  | checkLength =>
    simp only [QueuePair.step, QueuePair.sends] at stepped
    split at stepped
    · split at stepped
      · cases stepped
        exact .findsFull ‹_› ‹_›
      · cases stepped
        exact .findsRoom ‹_› (Int.not_le.mp ‹_›)
    · cases stepped
  | dropOldest =>
    simp only [QueuePair.step, QueuePair.sends] at stepped
    split at stepped
    · cases stepped
      exact .dropsNone ‹_› ‹_›
    · cases stepped
      exact .drops ‹_› ‹_›
    · cases stepped
  | pop =>
    simp only [QueuePair.step, QueuePair.polls] at stepped
    split at stepped
    · cases stepped
      exact .stays
    · cases stepped
      exact .pops ‹_› ‹_›
    · cases stepped
  | burst _ _ | freeDropped | incref | push | forward | freePolled | overwrite _ _ _ =>
    simp only [QueuePair.step, QueuePair.sends, QueuePair.polls, QueuePair.overwrites] at stepped
    split at stepped
    · cases stepped
      constructor
      assumption
    · cases stepped

end Moves

section Numbers

variable {π μ : Type}

/-- The order of the bursts and of what happened to them. -/
structure InSequence (pair : QueuePair π μ) : Prop where
  order : pair.log.filterMap QueueEvent.left? ++ pair.rx.map Waiting.number ++ pair.entering =
      List.range pair.sent.length
  took : pair.log.filterMap QueueEvent.took? ++ pair.uncounted = List.range pair.sent.length
  polled : pair.log.filterMap QueueEvent.popped? = pair.log.filterMap QueueEvent.forwarded? ++
        pair.poller.popped?.toList.map Waiting.number
  released : (pair.log.filterMap QueueEvent.released? ++ pair.held.map Waiting.number).Perm
      (pair.log.filterMap QueueEvent.left?)

@[simp] theorem filterMap_one {α β : Type} (pick : α → Option β) (event : α) :
    [event].filterMap pick = (pick event).toList := by
  cases picked : pick event <;> simp [picked]

variable {before after : QueuePair π μ} {label : QueueLabel π μ}

/-- A burst that is done with gives its references back. -/
theorem InSequence.releases (inSequence : InSequence before) {old : Waiting π} {packets : List μ}
    (sameLog : after.log = before.log ++ [.released old.number packets])
    (sameRx : after.rx = before.rx) (sameSent : after.sent = before.sent)
    (entering : after.entering = before.entering) (uncounted : after.uncounted = before.uncounted)
    (popped : after.poller.popped? = before.poller.popped?)
    (held : (old :: after.held).Perm before.held) : InSequence after := by
  obtain ⟨order, took, polled, released⟩ := inSequence
  refine ⟨?_, ?_, ?_, ?_⟩
  · simpa [sameLog, sameRx, sameSent, entering, -QueuePair.entering] using order
  · simpa [sameLog, sameSent, uncounted, -QueuePair.uncounted] using took
  · simpa [sameLog, popped, -PollPhase.popped?] using polled
  · have returned := (held.map Waiting.number).append_left
      (before.log.filterMap QueueEvent.released?)
    simpa [sameLog] using returned.trans released

theorem InSequence.move [DecidableEq π] (inSequence : InSequence before)
    (move : QueueMove before label after) : InSequence after := by
  have ⟨order, took, polled, released⟩ := inSequence
  cases move with
  | stays => exact inSequence
  | calls isIdle =>
    simp only [QueuePair.entering, QueuePair.uncounted, isIdle, append_nil] at order took
    refine ⟨?_, ?_, polled, ?_⟩
    · simp [order, range_succ]
    · simp [took, range_succ]
    · simpa [isIdle] using released
  | findsFull isPhase _ | findsRoom isPhase _ | dropsNone isPhase _ =>
    refine ⟨?_, ?_, polled, ?_⟩
    · simpa [isPhase] using order
    · simpa [isPhase] using took
    · simpa [isPhase] using released
  | @drops _ old _ isFull isRx =>
    refine ⟨?_, ?_, ?_, ?_⟩
    · simpa [isFull, isRx] using order
    · simpa [isFull] using took
    · simpa using polled
    · -- the burst leaves the queue and is held by the sender
      have left := (List.Perm.cons old.number released).trans (perm_append_singleton _ _).symm
      simpa [isFull] using perm_middle.trans left
  | freesDropped isDropping =>
    refine inSequence.releases rfl rfl rfl ?_ ?_ rfl ?_
    · simp [isDropping]
    · simp [isDropping]
    · simp [isDropping]
  | counts isRoom =>
    refine ⟨?_, ?_, ?_, ?_⟩
    · simpa [isRoom] using order
    · simpa [isRoom] using took
    · simpa using polled
    · simpa [isRoom] using released
  | pushes isCounted =>
    refine ⟨?_, ?_, polled, ?_⟩
    · simpa [isCounted] using order
    · simpa [isCounted] using took
    · simpa [isCounted] using released
  | @pops old _ isIdle isRx =>
    refine ⟨?_, ?_, ?_, ?_⟩
    · simpa [isRx] using order
    · simpa using took
    · simpa [isIdle] using polled
    · simpa [isIdle] using released.append_right [old.number]
  | forwards isPopped =>
    refine ⟨?_, ?_, ?_, ?_⟩
    · simpa using order
    · simpa using took
    · simpa [isPopped] using polled
    · simpa [isPopped] using released
  | freesPolled isForwarded =>
    refine inSequence.releases rfl rfl rfl rfl rfl ?_ ?_
    · simp [isForwarded]
    · simpa [isForwarded] using (perm_append_singleton _ _).symm
  | writes _ => exact ⟨order, took, polled, released⟩

end Numbers

section Sizes

variable {π μ : Type}

/-- How many bursts wait. -/
structure WithinSize (pair : QueuePair π μ) : Prop where
  bounded : pair.rx.length ≤ pair.rxMaxSize.toNat
  full : ∀ burst, pair.sender = .full burst →
      pair.rx.length = pair.rxMaxSize.toNat ∧ 0 < pair.rxMaxSize.toNat
  roomy : pair.sender.hasRoom = true → pair.rx.length < pair.rxMaxSize.toNat
  dropped : ∀ number waiting, .dropped number waiting ∈ pair.log → waiting = pair.rxMaxSize.toNat

/--
What has to be observed by the two sides: the size of the queue is not
negative, no burst is polled between the sender finding the queue full and
throwing the oldest burst away, and the sender leaves the entries of the
bursts that are not done with as they are.
-/
def Undisturbed (pair : QueuePair π μ) (label : QueueLabel π μ) : Prop :=
  match label with
  | .checkLength => 0 < pair.rxMaxSize.toInt
  | .pop => ∀ burst, pair.sender ≠ .full burst
  | .overwrite pkts index packet =>
    ∀ entry, pair.Live entry → entry.burst.pkts = pkts → entry.burst.mask.getLsbD index = true →
      packet = pair.memory pkts index
  | _ => True

variable {before after : QueuePair π μ} {label : QueueLabel π μ}

theorem toInt_of_pos {size : BitVec 32} (positive : 0 < size.toInt) : size.toInt = size.toNat := by
  rw [BitVec.toInt_eq_toNat_cond] at positive ⊢
  split at positive
  · rw [if_pos ‹_›]
  · omega

/-- A step of the sender between two looks at the queue. -/
theorem WithinSize.sends (within : WithinSize before) (sameRx : after.rx = before.rx)
    (sameSize : after.rxMaxSize = before.rxMaxSize) (notFull : ∀ burst, after.sender ≠ .full burst)
    (room : after.sender.hasRoom = true → before.rx.length < before.rxMaxSize.toNat)
    (dropped : ∀ number waiting, .dropped number waiting ∈ after.log → .dropped number waiting ∈
        before.log) : WithinSize after := by
  refine ⟨?_, fun burst isFull => absurd isFull (notFull burst), ?_, ?_⟩
  · rw [sameRx, sameSize]
    exact within.bounded
  · rw [sameRx, sameSize]
    exact room
  · intro number waiting member
    rw [sameSize]
    exact within.dropped number waiting (dropped number waiting member)

theorem WithinSize.move [DecidableEq π] (within : WithinSize before)
    (undisturbed : Undisturbed before label) (move : QueueMove before label after) :
    WithinSize after := by
  have oldDrop {event : QueueEvent μ} {number waiting : Nat}
      (notDrop : event ≠ .dropped number waiting)
      (member : .dropped number waiting ∈ before.log ++ [event]) :
      .dropped number waiting ∈ before.log := by
    rcases mem_append.mp member with old | new
    · exact old
    · exact absurd (mem_singleton.mp new).symm notDrop
  cases move with
  | stays => exact within
  | calls isIdle => exact within.sends rfl rfl (by simp) (by simp) (fun _ _ => id)
  | @findsFull _ isCalled isFull =>
    have positive : 0 < before.rxMaxSize.toInt := undisturbed
    have isSize := toInt_of_pos positive
    rw [isSize] at positive isFull
    have atLimit : before.rx.length = before.rxMaxSize.toNat :=
      Nat.le_antisymm within.bounded (Int.ofNat_le.mp isFull)
    exact ⟨within.bounded, fun _ _ => ⟨atLimit, Int.ofNat_lt.mp positive⟩,
      fun room => (by cases room), within.dropped⟩
  | findsRoom isCalled isRoom =>
    have positive : 0 < before.rxMaxSize.toInt := undisturbed
    rw [toInt_of_pos positive] at isRoom
    exact within.sends rfl rfl (by simp) (fun _ => Int.ofNat_lt.mp isRoom) (fun _ _ => id)
  | dropsNone isFull isEmpty =>
    have positive := (within.full _ isFull).2
    refine within.sends rfl rfl (by simp) (fun _ => ?_) (fun _ _ => id)
    rw [isEmpty]
    exact positive
  | drops isFull isRx =>
    have atLimit := (within.full _ isFull).1
    have smaller := atLimit
    rw [isRx, length_cons] at smaller
    refine ⟨Nat.le_of_lt (Nat.lt_of_succ_le (Nat.le_of_eq smaller)),
      fun _ stillFull => (by cases stillFull),
      fun _ => Nat.lt_of_succ_le (Nat.le_of_eq smaller), ?_⟩
    intro number waiting member
    rcases mem_append.mp member with old | new
    · exact within.dropped number waiting old
    · cases mem_singleton.mp new
      exact atLimit
  | freesDropped isDropping =>
    refine within.sends rfl rfl (by simp) (fun _ => ?_) (fun _ _ => oldDrop (by simp))
    exact within.roomy (by simp [isDropping])
  | counts isRoom =>
    refine within.sends rfl rfl (by simp) (fun _ => ?_) (fun _ _ => oldDrop (by simp))
    exact within.roomy (by simp [isRoom])
  | pushes isCounted =>
    have room := within.roomy (by simp [isCounted])
    refine ⟨?_, fun _ isFull => (by cases isFull), fun room => (by cases room), within.dropped⟩
    rw [length_append, length_singleton]
    exact room
  | pops isIdle isRx =>
    have bounded := within.bounded
    have roomy := within.roomy
    rw [isRx, length_cons] at bounded roomy
    exact ⟨Nat.le_of_succ_le bounded, fun burst isFull => absurd isFull (undisturbed burst),
      fun room => Nat.lt_of_succ_lt (roomy room), fun number waiting member =>
        within.dropped number waiting (oldDrop (by simp) member)⟩
  | forwards isPopped | freesPolled isForwarded =>
    exact ⟨within.bounded, within.full, within.roomy, fun number waiting member =>
        within.dropped number waiting (oldDrop (by simp) member)⟩
  | writes isIdle => exact ⟨within.bounded, within.full, within.roomy, within.dropped⟩

end Sizes

section Contents

variable {π μ : Type}

/-- What the history says about a burst is what was sent. -/
def QueueEvent.Genuine (sent : List (BitVec 64 × List μ)) :
    QueueEvent μ → Prop
  | .took number packets => ∃ mask, sent[number]? = some (mask, packets)
  | .forwarded number mask packets => sent[number]? = some (mask, packets)
  | .released number packets => ∃ mask, sent[number]? = some (mask, packets)
  | _ => True

/-- A burst refers to the packets that were sent. -/
def QueuePair.Refers (pair : QueuePair π μ) (number : Nat) (burst : QueueBurst π) : Prop :=
  pair.sent[number]? = some (burst.mask, packetsOf pair.memory burst)

/-- The bursts refer to the packets that were sent with them. -/
structure Unchanged (pair : QueuePair π μ) : Prop where
  live : ∀ entry, pair.Live entry → pair.Refers entry.number entry.burst
  current : ∀ burst, pair.sender.current? = some burst → pair.Refers pair.current burst
  history : ∀ event ∈ pair.log, event.Genuine pair.sent

variable {before after : QueuePair π μ} {label : QueueLabel π μ}

/-- A step that leaves the memory and the bursts made alone. -/
theorem Unchanged.keep (unchanged : Unchanged before) (sameMemory : after.memory = before.memory)
    (sameSent : after.sent = before.sent)
    (live : ∀ entry, after.Live entry → before.Live entry ∨ before.Refers entry.number entry.burst)
    (current : ∀ burst, after.sender.current? = some burst → before.sender.current? = some burst)
    (history : ∀ event ∈ after.log, event ∈ before.log ∨ event.Genuine before.sent) :
    Unchanged after := by
  have refers (number : Nat) (burst : QueueBurst π)
      (old : before.Refers number burst) : after.Refers number burst := by
    unfold QueuePair.Refers
    rw [sameMemory, sameSent]
    exact old
  refine ⟨?_, ?_, ?_⟩
  · intro entry member
    rcases live entry member with old | isNew
    · exact refers _ _ (unchanged.live entry old)
    · exact refers _ _ isNew
  · intro burst isCurrent
    have sameNumber : after.current = before.current := by
      unfold QueuePair.current
      rw [sameSent]
    rw [sameNumber]
    exact refers _ _ (unchanged.current burst (current burst isCurrent))
  · intro event member
    rw [sameSent]
    rcases history event member with old | isNew
    · exact unchanged.history event old
    · exact isNew

/-- Bursts made before stay in the history. -/
theorem QueueEvent.Genuine.append {sent more : List (BitVec 64 × List μ)} {event : QueueEvent μ}
    (genuine : event.Genuine sent) : event.Genuine (sent ++ more) := by
  have kept {number : Nat} {entry : BitVec 64 × List μ} (isEntry : sent[number]? = some entry) :
      (sent ++ more)[number]? = some entry := by
    obtain ⟨below, _⟩ := List.getElem?_eq_some_iff.mp isEntry
    rw [getElem?_append_left below]
    exact isEntry
  cases event with
  | took number packets => exact genuine.imp (fun _ => kept)
  | forwarded number mask packets => exact kept genuine
  | released number packets => exact genuine.imp (fun _ => kept)
  | dropped _ _ | popped _ => trivial

theorem Unchanged.calls (unchanged : Unchanged before) {pkts : π} {mask : BitVec 64}
    (isIdle : before.sender = .idle) :
    Unchanged { before with
        sender := .called { pkts := pkts, mask := mask }
        sent :=
          before.sent ++ [(mask, packetsOf before.memory { pkts := pkts, mask := mask })] } := by
  refine ⟨?_, ?_, ?_⟩
  · intro entry member
    have old : before.Live entry := by simpa [QueuePair.Live, isIdle] using member
    have refers := unchanged.live entry old
    unfold QueuePair.Refers at refers ⊢
    obtain ⟨below, _⟩ := List.getElem?_eq_some_iff.mp refers
    rw [getElem?_append_left below]
    exact refers
  · intro burst isCurrent
    cases isCurrent
    simp [QueuePair.Refers, QueuePair.current]
  · intro event member
    exact (unchanged.history event member).append

/-- The packets of a burst do not change with entries of other bursts. -/
theorem packetsOf_update [DecidableEq π] {memory : π → Nat → μ} {burst : QueueBurst π}
    {pkts : π} {index : Nat} {packet : μ}
    (kept : burst.pkts = pkts → burst.mask.getLsbD index = true → packet = memory pkts index) :
    packetsOf (update memory pkts (update (memory pkts) index packet)) burst =
      packetsOf memory burst := by
  unfold packetsOf
  refine map_congr_left (fun position member => ?_)
  by_cases here : burst.pkts = pkts
  · rw [here, update_self]
    by_cases same : position = index
    · rw [same, update_self]
      exact kept here (mem_lowBits.mp (same ▸ member))
    · rw [update_of_ne same]
  · rw [update_of_ne here]

theorem Unchanged.move [DecidableEq π] (unchanged : Unchanged before)
    (undisturbed : Undisturbed before label) (move : QueueMove before label after) :
    Unchanged after := by
  have oldEvent {event added : QueueEvent μ} (genuine : added.Genuine before.sent)
      (member : event ∈ before.log ++ [added]) :
      event ∈ before.log ∨ event.Genuine before.sent := by
    rcases mem_append.mp member with old | new
    · exact .inl old
    · exact .inr (mem_singleton.mp new ▸ genuine)
  cases move with
  | stays => exact unchanged
  | calls isIdle => exact unchanged.calls isIdle
  | findsFull isPhase _ | findsRoom isPhase _ | dropsNone isPhase _ =>
    refine unchanged.keep rfl rfl ?_ ?_ (fun _ => .inl)
    · simpa [QueuePair.Live, isPhase] using fun _ => Or.inl
    · simp [isPhase]
  | drops isFull isRx =>
    refine unchanged.keep rfl rfl ?_ ?_ (fun _ => oldEvent trivial)
    · rintro entry (inRx | isDropped | isHeld)
      · exact .inl (.inl (isRx ▸ mem_cons_of_mem _ inRx))
      · cases isDropped
        exact .inl (.inl (isRx ▸ mem_cons_self))
      · exact .inl (.inr (.inr isHeld))
    · simp [isFull]
  | freesDropped isDropping =>
    have refers := unchanged.live _ (.inr (.inl (by simp [isDropping]; rfl)))
    refine unchanged.keep rfl rfl ?_ ?_ (fun _ => oldEvent ⟨_, refers⟩)
    · rintro entry (inRx | isDropped | isHeld)
      · exact .inl (.inl inRx)
      · cases isDropped
      · exact .inl (.inr (.inr isHeld))
    · simp [isDropping]
  | counts isRoom =>
    have refers := unchanged.current _ (by simp [isRoom]; rfl)
    refine unchanged.keep rfl rfl ?_ ?_ (fun _ => oldEvent ⟨_, refers⟩)
    · simpa [QueuePair.Live, isRoom] using fun _ => Or.inl
    · simp [isRoom]
  | pushes isCounted =>
    have refers := unchanged.current _ (by simp [isCounted]; rfl)
    refine unchanged.keep rfl rfl ?_ ?_ (fun _ => .inl)
    · rintro entry (inRx | isDropped | isHeld)
      · rcases mem_append.mp inRx with old | new
        · exact .inl (.inl old)
        · rw [mem_singleton.mp new]
          exact .inr refers
      · cases isDropped
      · exact .inl (.inr (.inr isHeld))
    · simp
  | pops isIdle isRx =>
    refine unchanged.keep rfl rfl ?_ (fun _ => id) (fun _ => oldEvent trivial)
    rintro entry (inRx | isDropped | isHeld)
    · exact .inl (.inl (isRx ▸ mem_cons_of_mem _ inRx))
    · exact .inl (.inr (.inl isDropped))
    · cases isHeld
      exact .inl (.inl (isRx ▸ mem_cons_self))
  | forwards isPopped =>
    have refers := unchanged.live _ (.inr (.inr (by simp [isPopped]; rfl)))
    refine unchanged.keep rfl rfl ?_ (fun _ => id) (fun _ => oldEvent refers)
    simpa [QueuePair.Live, isPopped] using fun _ => Or.inl
  | freesPolled isForwarded =>
    have refers := unchanged.live _ (.inr (.inr (by simp [isForwarded]; rfl)))
    refine unchanged.keep rfl rfl ?_ (fun _ => id) (fun _ => oldEvent ⟨_, refers⟩)
    rintro entry (inRx | isDropped | isHeld)
    · exact .inl (.inl inRx)
    · exact .inl (.inr (.inl isDropped))
    · cases isHeld
  | writes isIdle =>
    refine ⟨?_, ?_, unchanged.history⟩
    · intro entry live
      have refers := unchanged.live entry live
      unfold QueuePair.Refers at refers ⊢
      rw [packetsOf_update (undisturbed entry live)]
      exact refers
    · intro burst isCurrent
      simp [isIdle] at isCurrent

end Contents

section Runs

variable {π μ : Type}

/-- A queue delivers what was sent. -/
structure QueueDelivers (pair : QueuePair π μ) : Prop where
  /-- A poll forwards the packets of its burst under their mask. -/
  forwarded : ∀ number mask packets, .forwarded number mask packets ∈ pair.log →
      pair.sent[number]? = some (mask, packets)
  /-- Bursts leave in the order they were made, and none is lost. -/
  fifo : pair.log.filterMap QueueEvent.left? ++ pair.rx.map Waiting.number ++ pair.entering =
      List.range pair.sent.length
  inOrder : pair.log.filterMap QueueEvent.forwarded? <+: pair.log.filterMap QueueEvent.popped?
  /-- Bursts are thrown away only from a full queue. -/
  dropped : ∀ number waiting, .dropped number waiting ∈ pair.log → waiting = pair.rxMaxSize.toNat
  /-- References are taken to the packets sent, once for each burst. -/
  took : ∀ number packets, .took number packets ∈ pair.log →
      ∃ mask, pair.sent[number]? = some (mask, packets)
  tookOnce : (pair.log.filterMap QueueEvent.took?).Nodup
  /-- The references given back are those that were taken. -/
  released : ∀ number packets, .released number packets ∈ pair.log → .took number packets ∈ pair.log
  /-- They are given back once for each burst that left and is done with. -/
  releasedOnce : (pair.log.filterMap QueueEvent.released? ++ pair.held.map Waiting.number).Perm
      (pair.log.filterMap QueueEvent.left?)

variable {pair : QueuePair π μ}

/-- The references of a burst that left the queue were taken. -/
theorem InSequence.took_of_left (inSequence : InSequence pair) {number : Nat}
    (left : number ∈ pair.log.filterMap QueueEvent.left?) :
    number ∈ pair.log.filterMap QueueEvent.took? := by
  have inRange : number ∈ List.range pair.sent.length := by
    rw [← inSequence.order]
    exact mem_append_left _ (mem_append_left _ left)
  rw [← inSequence.took] at inRange
  rcases mem_append.mp inRange with taken | uncounted
  · exact taken
  · -- the burst that enters has not left
    have entering : number ∈ pair.entering := by
      unfold QueuePair.uncounted at uncounted
      unfold QueuePair.entering
      cases isSender : pair.sender <;> simp_all
    have distinct : (List.range pair.sent.length).Nodup := nodup_range
    rw [← inSequence.order, nodup_append] at distinct
    exact absurd rfl (distinct.2.2 number (mem_append_left _ left) number entering)

/-- What is given back was taken. -/
theorem Unchanged.released_took (unchanged : Unchanged pair) (inSequence : InSequence pair)
    {number : Nat} {packets : List μ} (member : .released number packets ∈ pair.log) :
    .took number packets ∈ pair.log := by
  have left : number ∈ pair.log.filterMap QueueEvent.left? :=
    inSequence.released.subset (mem_append_left _ (mem_filterMap.mpr ⟨_, member, rfl⟩))
  obtain ⟨event, tookMember, isTook⟩ := mem_filterMap.mp (inSequence.took_of_left left)
  cases event with
  | took other taken =>
    cases isTook
    obtain ⟨mask, isSent⟩ := unchanged.history _ member
    obtain ⟨otherMask, wasSent⟩ := unchanged.history _ tookMember
    rw [isSent, Option.some.injEq, Prod.mk.injEq] at wasSent
    rw [wasSent.2]
    exact tookMember
  | dropped _ _ | popped _ | forwarded _ _ _ | released _ _ => cases isTook

variable [DecidableEq π]

/--
Two queues whose sender leaves the packets of its bursts alone deliver what
was sent.
-/
theorem queue_pair_delivers (reachable : ((queueSystem π μ).guarded Undisturbed).Reachable pair) :
    QueueDelivers pair := by
  have sound : InSequence pair ∧ WithinSize pair ∧ Unchanged pair := by
    refine reachable.invariant ?_ ?_
    · rintro _ ⟨memory, size, rfl⟩
      refine ⟨⟨rfl, rfl, rfl, .refl _⟩, ⟨Nat.zero_le _, ?_, ?_, ?_⟩, ?_⟩
      · exact fun _ isFull => (by cases isFull)
      · exact fun room => (by cases room)
      · exact fun _ _ member => absurd member not_mem_nil
      · refine ⟨?_, fun _ isCurrent => (by cases isCurrent),
          fun _ member => absurd member not_mem_nil⟩
        rintro entry (inRx | isDropped | isHeld)
        · exact absurd inRx not_mem_nil
        · cases isDropped
        · cases isHeld
    · rintro before label after ⟨inSequence, within, unchanged⟩ ⟨undisturbed, stepped⟩
      have move := QueuePair.move_of_step stepped
      exact ⟨inSequence.move move, within.move undisturbed move, unchanged.move undisturbed move⟩
  obtain ⟨inSequence, within, unchanged⟩ := sound
  exact
    { forwarded := fun number mask packets member =>
        unchanged.history (.forwarded number mask packets) member
      fifo := inSequence.order
      inOrder := ⟨_, inSequence.polled.symm⟩
      dropped := within.dropped
      took := fun number packets member => unchanged.history (.took number packets) member
      tookOnce := by
        have distinct : (List.range pair.sent.length).Nodup := nodup_range
        rw [← inSequence.took, nodup_append] at distinct
        exact distinct.1
      released := fun _ _ => unchanged.released_took inSequence
      releasedOnce := inSequence.released }

end Runs

/-- Two queues of size one whose sender has the packet 7 in its array. -/
def examplePair : QueuePair Unit Nat :=
  QueuePair.start (fun _ _ => 7) 1#32

/-- A burst of the first packet of the array. -/
def exampleBurst : QueueBurst Unit where
  pkts := ()
  mask := 1#64

theorem exampleBurst_packets (memory : Unit → Nat → Nat) :
    packetsOf memory exampleBurst = [memory () 0] := by
  have isFirst : lowBits exampleBurst.mask = [0] := by decide +kernel
  unfold packetsOf
  rw [isFirst]
  rfl

/-- A burst is made and polled. -/
theorem queue_pair_delivers_polled :
    ∃ pair : QueuePair Unit Nat,
      ((queueSystem Unit Nat).guarded Undisturbed).Reachable pair ∧ pair.log =
          [.took 0 [7], .popped 0, .forwarded 0 1#64 [7], .released 0 [7]] ∧
        QueueDelivers pair := by
  have step {before after : QueuePair Unit Nat} (label : QueueLabel Unit Nat) (reachable :
        ((queueSystem Unit Nat).guarded Undisturbed).Reachable before)
      (undisturbed : Undisturbed before label) (stepped : before.step label = some after) :
      ((queueSystem Unit Nat).guarded Undisturbed).Reachable after :=
    .step label reachable ⟨undisturbed, stepped⟩
  have started : ((queueSystem Unit Nat).guarded Undisturbed).Reachable examplePair :=
    .initial ⟨_, _, rfl⟩
  have called := step (.burst () 1#64) started trivial rfl
  have checked := step .checkLength called (show 0 < (1#32).toInt by decide) rfl
  have counted := step .incref checked trivial rfl
  have pushed := step .push counted trivial rfl
  have popped := step .pop pushed (fun _ isFull => by cases isFull) rfl
  have forwarded := step .forward popped trivial rfl
  have freed := step .freePolled forwarded trivial rfl
  refine ⟨_, freed, ?_, queue_pair_delivers freed⟩
  show [.took 0 (packetsOf (fun _ _ => 7) exampleBurst), .popped 0,
        .forwarded 0 1#64 (packetsOf (fun _ _ => 7) exampleBurst),
        .released 0 (packetsOf (fun _ _ => 7) exampleBurst)] =
      [QueueEvent.took 0 [7], .popped 0, .forwarded 0 1#64 [7], .released 0 [7]]
  rw [exampleBurst_packets]

/-- The array after the sender wrote into it. -/
def overwritten : Unit → Nat → Nat :=
  update (fun _ _ => 7) () (update (fun _ => 7) 0 8)

/--
The sender writes the packet 8 over the packet 7 of a waiting burst: the poll
forwards 8, and the reference to 7 is given back on 8.
-/
theorem queue_forwards_overwritten :
    ∃ pair : QueuePair Unit Nat,
      (queueSystem Unit Nat).Reachable pair ∧ pair.sent = [(1#64, [7])] ∧ pair.log =
          [.took 0 [7], .popped 0, .forwarded 0 1#64 [8], .released 0 [8]] := by
  have started : (queueSystem Unit Nat).Reachable examplePair := .initial ⟨_, _, rfl⟩
  obtain ⟨pair, ran, isSent, isLog⟩ : ∃ pair,
        after (fun pair label => QueuePair.step pair label) examplePair
            [.burst () 1#64, .checkLength, .incref, .push,
              .overwrite () 0 8, .pop, .forward, .freePolled] = some pair ∧ pair.sent =
            [(1#64, packetsOf (fun _ _ => 7) exampleBurst)] ∧ pair.log =
            [.took 0 (packetsOf (fun _ _ => 7) exampleBurst), .popped 0,
              .forwarded 0 1#64 (packetsOf overwritten exampleBurst),
              .released 0 (packetsOf overwritten exampleBurst)] :=
    ⟨_, rfl, rfl, rfl⟩
  rw [exampleBurst_packets] at isSent
  rw [exampleBurst_packets, exampleBurst_packets] at isLog
  exact ⟨pair, started.after ran, isSent, isLog⟩

end PacketGraph
