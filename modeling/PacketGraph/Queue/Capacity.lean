import PacketGraph.Flow.Bricks
import PacketGraph.Lib.Reachability

namespace PacketGraph

open BitVec List TransitionSystem

/-!
# How full a queue is

A queue is made for a number of bursts.  The number is an `int` for the caller
of `pg_queue_new`, a `uint32_t` for the brick and an `int` again where the
queue is looked at.  Bursts and the polls of the friend follow one another.
-/

variable {ι π : Type}

/-- The `rx_max_size` that `queue_init` takes. -/
def initialMaxSize (size : BitVec 32) : BitVec 32 :=
  if size = 0#32 then 10#32 else size

/-- The state that `pg_queue_new` has `queue_init` set up. -/
def queueInit (ι π : Type) (size : BitVec 32) : QueueState ι π where
  rxMaxSize := initialMaxSize size
  rx := []
  friend := none

/--
`pg_queue_pressure`.  No result stands for a product that does not fit an
`int`.
-/
def pgQueuePressure (state : QueueState ι π) : Option (BitVec 8) :=
  let queueSize := state.rx.length
  if queueSize = 0 then
    some 0#8
  else if 2 ^ 31 ≤ queueSize * 255 then
    none
  else
    some (BitVec.ofNat 8 (queueSize * 255 / state.rxMaxSize.toNat))

/-- What happens to a queue: a burst, or a poll of the friend. -/
inductive QueueUse (ι π : Type) where
  | burst (pkts : π) (pktsMask : BitVec 64)
  | poll (friend : Brick ι) (answers : Answers)

/-- One use of a queue. -/
def QueueState.use (queue : QueueState ι π) : QueueUse ι π → Option (QueueState ι π)
  | .burst pkts pktsMask => some (queueBurst queue pkts pktsMask)
  | .poll friend answers => (queuePoll friend (some queue) answers).friend

/-- The runs of a queue of some size. -/
def queueUses (ι π : Type) (size : BitVec 32) : System (QueueState ι π) (QueueUse ι π) :=
  .ofStep (fun queue => queue = queueInit ι π size) QueueState.use

/-- The number of bursts that a caller of `pg_queue_new` asks for. -/
def queueCap (size : BitVec 32) : Nat :=
  if 0 < size.toInt then size.toNat else 10

/-- A queue keeps to its capacity and tells how much of it is used. -/
structure KeepsCapacity (cap : Nat) (queue : QueueState ι π) : Prop where
  bounded : queue.rx.length ≤ cap
  /-- A burst is thrown away only from a full queue. -/
  discards : ∀ pkts pktsMask,
      (queueBurst queue pkts pktsMask).rx ≠ queue.rx ++ [{ pkts := pkts, mask := pktsMask }] →
        queue.rx.length = cap
  pressure : ∃ value, pgQueuePressure queue = some value ∧
      value.toNat = 255 * queue.rx.length / cap ∧ (queue.rx = [] → value = 0#8) ∧
        (value = 255#8 ↔ queue.rx.length = cap)

/-- The sizes that the three types agree on and whose pressure can be computed. -/
def FitsPressure (size : BitVec 32) : Prop :=
  0 ≤ size.toInt ∧ size.toInt ≤ 8421504

variable {size : BitVec 32}

/-- A size that fits is stored as the capacity. -/
theorem FitsPressure.stored (fits : FitsPressure size) :
    (initialMaxSize size).toInt = queueCap size ∧ (initialMaxSize size).toNat = queueCap size ∧
      0 < queueCap size ∧ queueCap size ≤ 8421504 := by
  obtain ⟨low, high⟩ := fits
  unfold initialMaxSize queueCap
  by_cases isZero : size = 0#32
  · subst isZero
    decide
  · have positive : size.toInt ≠ 0 := fun zero => isZero (eq_of_toInt_eq zero)
    rw [if_neg isZero, if_pos (by omega)]
    rw [toInt_eq_toNat_cond] at *
    split at low <;> omega

/-- What every use of a queue keeps. -/
structure Filled (size : BitVec 32) (queue : QueueState ι π) : Prop where
  bounded : queue.rx.length ≤ queueCap size
  sized : queue.rxMaxSize = initialMaxSize size

theorem Filled.use (fits : FitsPressure size) {queue after : QueueState ι π}
    (filled : Filled size queue) {label : QueueUse ι π} (used : queue.use label = some after) :
    Filled size after := by
  obtain ⟨isInt, _, positive, _⟩ := fits.stored
  have bounded := filled.bounded
  cases label with
  | burst pkts pktsMask =>
    cases used
    refine ⟨?_, filled.sized⟩
    simp only [queueBurst, filled.sized, isInt, length_append, length_singleton]
    split
    · rw [length_tail]
      omega
    · omega
  | poll friend answers =>
    simp only [QueueState.use, queuePoll] at used
    split at used
    · cases used
      exact filled
    · rename_i isRx
      cases used
      rw [isRx, length_cons] at bounded
      exact ⟨Nat.le_of_succ_le bounded, filled.sized⟩

/-- A queue of a size that fits throws bursts away only when it is full. -/
theorem Filled.keepsCapacity (fits : FitsPressure size) {queue : QueueState ι π}
    (filled : Filled size queue) : KeepsCapacity (queueCap size) queue := by
  obtain ⟨isInt, isNat, positive, small⟩ := fits.stored
  have bounded := filled.bounded
  refine ⟨bounded, ?_, ?_⟩
  · intro pkts pktsMask discarded
    simp only [queueBurst, filled.sized, isInt] at discarded
    split at discarded
    · omega
    · exact absurd rfl discarded
  · have quotient : 255 * queue.rx.length / queueCap size ≤ 255 := Nat.div_le_of_le_mul (by omega)
    have fullIff : 255 * queue.rx.length / queueCap size = 255 ↔
        queue.rx.length = queueCap size := by
      rw [Nat.div_eq_iff positive]
      omega
    unfold pgQueuePressure
    simp only [filled.sized, isNat, Nat.mul_comm queue.rx.length 255]
    by_cases isEmpty : queue.rx.length = 0
    · refine ⟨0#8, if_pos isEmpty, by simp [isEmpty], fun _ => rfl, ?_⟩
      simp only [isEmpty]
      constructor
      · intro impossible
        exact absurd impossible (by decide)
      · omega
    · refine ⟨BitVec.ofNat 8 (255 * queue.rx.length / queueCap size), ?_, ?_, ?_, ?_⟩
      · simp only [isEmpty, ↓reduceIte]
        rw [if_neg (by omega)]
      · rw [toNat_ofNat]
        exact Nat.mod_eq_of_lt (by omega)
      · intro noBurst
        exact absurd (congrArg List.length noBurst) isEmpty
      · rw [← fullIff, ← toNat_inj, toNat_ofNat]
        rw [Nat.mod_eq_of_lt (by omega)]
        rfl

variable [Inhabited π]

/-- A queue can be filled up to the size it was made for. -/
theorem exists_filled (positive : 0 < size.toInt) {held : Nat} (fits : held ≤ size.toNat) :
    ∃ queue : QueueState ι π, (queueUses ι π size).Reachable queue ∧
      queue.rx.length = held ∧ queue.rxMaxSize = size := by
  have notZero : size ≠ 0#32 := by
    rintro rfl
    exact absurd positive (by decide)
  induction held with
  | zero => exact ⟨_, .initial rfl, rfl, if_neg notZero⟩
  | succ held ih =>
    obtain ⟨queue, reachable, isHeld, sized⟩ := ih (Nat.le_of_succ_le fits)
    refine ⟨queueBurst queue default 0#64, .step (.burst default 0#64) reachable rfl, ?_, sized⟩
    have isSize : size.toInt = size.toNat := by
      rw [toInt_eq_toNat_cond] at positive ⊢
      split at positive <;> omega
    simp only [queueBurst, sized, isHeld, isSize]
    rw [if_neg (by omega), length_append, isHeld]
    rfl

/--
A queue keeps to its capacity and tells its pressure in every run exactly if
its size is not negative and 255 times the size fits an `int`.
-/
theorem queue_capacity_iff (size : BitVec 32) :
    (∀ queue : QueueState ι π, (queueUses ι π size).Reachable queue →
        KeepsCapacity (queueCap size) queue) ↔
      FitsPressure size := by
  constructor
  · intro keeps
    by_contra unfit
    by_cases negative : size.toInt < 0
    · -- every burst throws the one before it away
      have notZero : size ≠ 0#32 := by
        rintro rfl
        exact absurd negative (by decide)
      let first : QueueState ι π := queueBurst (queueInit ι π size) default 0#64
      have reachable : (queueUses ι π size).Reachable first :=
        .step (.burst default 0#64) (.initial rfl) rfl
      have isCap := (keeps first reachable).discards default 0#64
      simp only [first, queueBurst, queueInit, initialMaxSize, notZero, queueCap] at isCap
      simp [show ¬ 0 < size.toInt by omega, show size.toInt ≤ 1 by omega] at isCap
    · have large : 8421505 ≤ size.toInt := by
        unfold FitsPressure at unfit
        omega
      have enough : 8421505 ≤ size.toNat := by
        rw [toInt_eq_toNat_cond] at large negative
        split at large <;> omega
      obtain ⟨queue, reachable, isHeld, _⟩ := @exists_filled ι π _ _ (by omega) _ enough
      obtain ⟨value, isValue, _⟩ := (keeps queue reachable).pressure
      simp [pgQueuePressure, isHeld] at isValue
  · intro fits queue reachable
    have filled : Filled size queue := by
      refine reachable.invariant ?_ (fun _ _ _ filled used => filled.use fits used)
      rintro _ rfl
      exact ⟨Nat.zero_le _, rfl⟩
    exact filled.keepsCapacity fits

/-- A queue made for -1 bursts holds one, throws it away at the next burst and tells no pressure. -/
theorem negative_queue_holds_one :
    ∃ queue : QueueState Unit Unit, (queueUses Unit Unit (-1#32)).Reachable queue ∧
      queue.rx.length = 1 ∧ queueCap (-1#32) = 10 ∧ (queueBurst queue () 2#64).rx.length = 1 ∧
        pgQueuePressure queue = some 0#8 := by
  refine ⟨queueBurst (queueInit Unit Unit (-1#32)) () 1#64, ?_, ?_⟩
  · exact .step (.burst () 1#64) (.initial rfl) rfl
  · decide +kernel

end PacketGraph
