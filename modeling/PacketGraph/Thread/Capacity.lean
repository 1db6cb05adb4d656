import PacketGraph.Thread.Answers
import PacketGraph.Thread.Polling

namespace PacketGraph

open Function List Option TransitionSystem

/-!
# Room in the queue of a thread

Slots at the end of the queue are given back by the functions that shrink it
after they emptied their own slot.  `pg_thread_run` and
`pg_thread_force_start_graph` do not shrink the queue, and `pg_thread_stop`
does so too early.  A caller that calls the others often enough, runs the
thread with a graph and adds no graph when there is no index left for it never
finds the queue full or locked.
-/

/-- Does a function give back slots at the end of the queue? -/
def ThreadCall.trims : ThreadCall → Bool
  | .run => false
  | .stop => false
  | .forceStartGraph _ => false
  | _ => true

/-- The number of calls since the last one that shrinks the queue. -/
def untrimmed {κ : Type} (issued : List (κ × ThreadCall)) : Nat :=
  (issued.reverse.takeWhile (fun entry => ! entry.2.trims)).length

/-- Is there an index for another graph? -/
def Worker.HasRoom (worker : Worker) : Prop :=
  worker.freeGraph.values ≠ [] ∨ worker.lastGraph < pgStackBlockSize

/-- What a caller has to observe when it enqueues an operation. -/
def Measured (world : ThreadWorld Unit) (label : ThreadLabel Unit) : Prop :=
  match label with
  | .enqueue who =>
    ∀ call, world.phase who = .entering call → (call.trims = false → untrimmed world.issued < 125) ∧
        (call.op = .addGraph → world.worker.HasRoom) ∧ (call.op = .run → world.worker.lastGraph ≠ 0)
  | _ => True

/-- Is a caller in no call? -/
def CallerPhase.isIdle : CallerPhase → Bool
  | .idle => true
  | _ => false

/-- The slot that the caller waits for. -/
def CallerPhase.slot? : CallerPhase → Option (ThreadCall × Nat)
  | .waiting call slot _ => some (call, slot)
  | .holding call slot _ => some (call, slot)
  | _ => none

/-- Has the worker passed a slot in its walk through the queue? -/
def WorkerPhase.Passed (control : WorkerPhase) (slot : Nat) : Prop :=
  ∀ queuePos, control = .atOp queuePos → queuePos < slot

/-- What holds of the queue of a measured caller. -/
structure Roomy (world : ThreadWorld Unit) : Prop where
  unlocked : world.lock = some .worker → ∃ queuePos, world.control = .atOp queuePos
  counted : untrimmed world.issued ≤ 125
  freeIds : ∀ id ∈ world.worker.freeGraph.values, id.toInt ≠ -1
  others : ∀ slot < world.client.queueSize, (∀ call, (world.phase ()).slot? ≠ some (call, slot)) →
      (world.client.queue slot).op = .none ∨ (world.client.queue slot).op = .run ∨
        (world.client.queue slot).op = .forceStart
  runs : ∀ slot < world.client.queueSize,
      (world.client.queue slot).op = .run → world.worker.lastGraph ≠ 0
  adds : ∀ slot < world.client.queueSize,
      (world.client.queue slot).op = .addGraph → world.worker.HasRoom
  last : ∀ call slot, (world.phase ()).slot? = some (call, slot) → slot + 1 = world.client.queueSize
  size : (∀ call slot, (world.phase ()).slot? = some (call, slot) → call.trims = false) →
    world.client.queueSize ≤ 1 + untrimmed world.issued
  walked : ∀ call slot, (world.phase ()).slot? = some (call, slot) →
      (world.client.queue slot).op = .answer →
      ∀ lower, 1 ≤ lower → lower < slot → world.control.Passed lower →
        (world.client.queue lower).op = .none

/-- The invariant of the runs of a measured caller. -/
structure RoomyQueue (world : ThreadWorld Unit) : Prop where
  queue : QueueSound world
  room : Roomy world

section Counting

variable {κ : Type}

theorem untrimmed_append (issued : List (κ × ThreadCall)) (who : κ) (call : ThreadCall) :
    untrimmed (issued ++ [(who, call)]) = if call.trims then 0 else untrimmed issued + 1 := by
  unfold untrimmed
  rw [reverse_append]
  cases isTrim : call.trims <;> simp [isTrim]

/-- A queue that is empty above its first slot shrinks to that slot. -/
theorem shrunkSize_le_one {queue : Nat → ThreadOp} {size : Nat}
    (empty : ∀ slot, 1 ≤ slot → slot < size → (queue slot).op = .none) :
    shrunkSize queue size ≤ 1 := by
  induction size with
  | zero => exact Nat.zero_le _
  | succ size ih =>
    unfold shrunkSize
    split
    · exact ih (fun slot positive below => empty slot positive (Nat.lt_succ_of_lt below))
    · rename_i inUse
      have isFirst : size = 0 := by
        by_contra notFirst
        exact inUse (empty size (Nat.pos_of_ne_zero notFirst) (Nat.lt_succ_self _))
      exact Nat.succ_le_succ (Nat.le_of_eq isFirst)

end Counting

section Effects

variable {worker left : Worker} {cur answer : ThreadOp}

theorem toInt_ofInt_index {id : Int} (isIndex : IsGraphIndex id) :
    (BitVec.ofInt 8 id).toInt = id := by
  obtain ⟨low, high⟩ := isIndex
  unfold pgStackBlockSize at high
  rw [BitVec.toInt_ofInt]
  exact Int.bmod_eq_of_le (by omega) (by omega)

theorem Stack.mem_push {α : Type} {stack : Stack α} {value other : α}
    (member : other ∈ (stack.push value).values) : other = value ∨ other ∈ stack.values := by
  unfold Stack.push at member
  split at member
  · exact .inr member
  · exact mem_cons.mp member

section

variable (effect : Effect worker cur answer left)

include effect

/-- Freed indices stay indices. -/
theorem Effect.freeIds (freeIds : ∀ id ∈ worker.freeGraph.values, id.toInt ≠ -1) :
    ∀ id ∈ left.freeGraph.values, id.toInt ≠ -1 := by
  cases effect with
  | idle _ | state _ | stop _ | popError _ _ => exact freeIds
  | rmGraph _ isIndex =>
    intro id member
    rcases Stack.mem_push member with rfl | older
    · rw [toInt_ofInt_index isIndex]
      exact fun isMinus => absurd isIndex.1 (by omega)
    · exact freeIds id older
  | addFails _ _ _ | addNext _ _ _ | addReused _ _ _ =>
    exact fun id member => freeIds id (mem_of_mem_tail member)
  | forceStart _ _ _ | run _ _ => exact freeIds

theorem Effect.lastGraph_le : worker.lastGraph ≤ left.lastGraph := by
  cases effect with
  | addNext _ _ _ => exact Nat.le_succ _
  | _ => exact Nat.le_refl _

/-- Room for a graph is taken by adding one. -/
theorem Effect.hasRoom (notAdd : cur.op ≠ .addGraph) (room : worker.HasRoom) : left.HasRoom := by
  cases effect with
  | addFails isAdd _ _ | addNext isAdd _ _ | addReused isAdd _ _ => exact absurd isAdd notAdd
  | rmGraph _ _ =>
    rcases room with free | below
    · refine .inl ?_
      unfold Stack.push
      split
      · exact free
      · exact cons_ne_nil _ _
    · exact .inr below
  | _ => exact room

end

/-- Adding a graph cannot fail while there is room. -/
theorem ne_addFails (freeIds : ∀ id ∈ worker.freeGraph.values, id.toInt ≠ -1)
    (room : worker.HasRoom) (empty : (worker.freeGraph.top (-1)).toInt = -1) :
    worker.lastGraph ≠ pgStackBlockSize := by
  rcases room with free | below
  · cases isValues : worker.freeGraph.values with
    | nil => exact absurd isValues free
    | cons id rest =>
      have isTop : worker.freeGraph.top (-1) = id := by
        unfold Stack.top
        rw [isValues]
        rfl
      rw [isTop] at empty
      exact absurd empty (freeIds id (isValues ▸ mem_cons_self))
  · exact Nat.ne_of_lt below

end Effects

section Steps

variable {world after : ThreadWorld Unit} {label : ThreadLabel Unit}

/-- Steps that leave the queue and the indices alone. -/
theorem Roomy.transport (roomy : Roomy world) (sameClient : after.client = world.client)
    (sameIssued : after.issued = world.issued)
    (sameSlot : (after.phase ()).slot? = (world.phase ()).slot?)
    (sameFree : after.worker.freeGraph = world.worker.freeGraph)
    (sameLast : after.worker.lastGraph = world.worker.lastGraph)
    (unlocked : after.lock = some .worker → ∃ queuePos, after.control = .atOp queuePos)
    (notWalking : ∀ queuePos, world.control ≠ .atOp queuePos) : Roomy after := by
  have sameRoom : after.worker.HasRoom ↔ world.worker.HasRoom := by
    unfold Worker.HasRoom
    rw [sameFree, sameLast]
  refine
    { unlocked := unlocked
      counted := sameIssued ▸ roomy.counted
      freeIds := sameFree ▸ roomy.freeIds
      others := by simpa only [sameClient, sameSlot] using roomy.others
      runs := by simpa only [sameClient, sameLast] using roomy.runs
      adds := by simpa only [sameClient, sameRoom] using roomy.adds
      last := by simpa only [sameClient, sameSlot] using roomy.last
      size := by simpa only [sameClient, sameSlot, sameIssued] using roomy.size
      walked := ?_ }
  · rw [sameClient, sameSlot]
    intro call slot isSlot isAnswer lower positive below _
    exact roomy.walked call slot isSlot isAnswer lower positive below
      (fun queuePos isAt => absurd isAt (notWalking queuePos))

theorem Roomy.enters (roomy : Roomy world) {call : ThreadCall}
    (isEntering : world.phase () = .entering call) (free : world.lock = none)
    (trimmed : call.trims = false → untrimmed world.issued < 125)
    (room : call.op = .addGraph → world.worker.HasRoom)
    (someGraph : call.op = .run → world.worker.lastGraph ≠ 0) : Roomy (world.entered () call) := by
  have noSlot : (world.phase ()).slot? = none := by
    rw [isEntering]
    rfl
  have isSlot : ((world.entered () call).phase ()).slot? =
        if call.waits then some (call, world.client.queueSize) else none := by
    simp only [ThreadWorld.entered, update_self]
    split <;> rfl
  have isIssued : untrimmed (world.entered () call).issued =
        if call.trims then 0 else untrimmed world.issued + 1 :=
    untrimmed_append _ _ _
  have newOp : ((world.entered () call).client.queue world.client.queueSize).op = call.op := by
    simp only [ThreadWorld.entered, update_self]
  refine
    { roomy with
      unlocked := fun isWorker => absurd (free.symm.trans isWorker) (by simp)
      counted := ?_
      others := ?_
      runs := ?_
      adds := ?_
      last := ?_
      size := ?_
      walked := ?_ }
  · rw [isIssued]
    split
    · exact Nat.zero_le _
    · rename_i notTrim
      exact trimmed (by simpa using notTrim)
  · intro slot below notOwn
    rcases ThreadWorld.entered_cases below with lower | rfl
    · rw [(ThreadWorld.entered_of_lt lower).1]
      exact roomy.others slot lower (fun other => by simp [noSlot])
    · rw [newOp]
      have fires : call.waits = false := by
        cases waits : call.waits with
        | false => rfl
        | true =>
          rw [isSlot, waits, if_pos rfl] at notOwn
          exact absurd rfl (notOwn call)
      cases call <;> simp [ThreadCall.waits, ThreadCall.op] at fires ⊢
  · intro slot below isRun
    rcases ThreadWorld.entered_cases below with lower | rfl
    · rw [(ThreadWorld.entered_of_lt lower).1] at isRun
      exact roomy.runs slot lower isRun
    · rw [newOp] at isRun
      exact someGraph isRun
  · intro slot below isAdd
    rcases ThreadWorld.entered_cases below with lower | rfl
    · rw [(ThreadWorld.entered_of_lt lower).1] at isAdd
      exact roomy.adds slot lower isAdd
    · rw [newOp] at isAdd
      exact room isAdd
  · intro other slot isOwn
    rw [isSlot] at isOwn
    split at isOwn
    · simp only [some.injEq, Prod.mk.injEq] at isOwn
      rw [← isOwn.2]
      rfl
    · exact absurd isOwn (by simp)
  · intro noTrim
    have before : world.client.queueSize ≤ 1 + untrimmed world.issued :=
      roomy.size (fun other slot isOwn => by simp [noSlot] at isOwn)
    have notTrim : call.trims = false := by
      cases waits : call.waits with
      | true =>
        rw [isSlot, waits, if_pos rfl] at noTrim
        exact noTrim call _ rfl
      | false => cases call <;> simp [ThreadCall.waits] at waits <;> rfl
    rw [isIssued, notTrim]
    exact Nat.succ_le_succ before
  · intro other slot isOwn isAnswer
    rw [isSlot] at isOwn
    split at isOwn
    · simp only [some.injEq, Prod.mk.injEq] at isOwn
      rw [← isOwn.2, newOp] at isAnswer
      cases call <;> simp [ThreadCall.op] at isAnswer
    · exact absurd isOwn (by simp)

theorem Roomy.takes (sound : QueueSound world) (roomy : Roomy world) {call : ThreadCall}
    {slot ticket : Nat} (isHolding : world.phase () = .holding call slot ticket) :
    Roomy { world with
        client := takeAnswer world.client call slot
        lock := none
        phase := update world.phase () .idle
        returned :=
          world.returned ++ [((), ticket, call.result (world.client.queue slot))] } := by
  obtain ⟨seated, isAnswer, locked⟩ := sound.holding isHolding
  have isSlot : (world.phase ()).slot? = some (call, slot) := by
    rw [isHolding]
    rfl
  have shrinks := takeAnswer_size_le world.client call slot
  have isLast := roomy.last call slot isSlot
  have thisSlot : ((takeAnswer world.client call slot).queue slot).op = .none := by
    rw [takeAnswer_queue, update_self]
  refine
    { roomy with
      unlocked := fun isWorker => absurd isWorker (by simp)
      others := ?_
      runs := ?_
      adds := ?_
      last := fun _ _ isOwn => absurd isOwn (by simp [CallerPhase.slot?])
      size := ?_
      walked := fun _ _ isOwn => absurd isOwn (by simp [CallerPhase.slot?]) }
  · intro other below _
    by_cases here : other = slot
    · subst here
      exact .inl thisSlot
    · simp only [takeAnswer_of_ne call here]
      refine roomy.others other (Nat.lt_of_lt_of_le below shrinks) ?_
      intro otherCall isOwn
      rw [isSlot] at isOwn
      simp only [some.injEq, Prod.mk.injEq] at isOwn
      exact here isOwn.2.symm
  · intro other below isRun
    by_cases here : other = slot
    · subst here
      exact absurd (thisSlot.symm.trans isRun) (by simp)
    · simp only [takeAnswer_of_ne call here] at isRun
      exact roomy.runs other (Nat.lt_of_lt_of_le below shrinks) isRun
  · intro other below isAdd
    by_cases here : other = slot
    · subst here
      exact absurd (thisSlot.symm.trans isAdd) (by simp)
    · simp only [takeAnswer_of_ne call here] at isAdd
      exact roomy.adds other (Nat.lt_of_lt_of_le below shrinks) isAdd
  · intro _
    by_cases trims : call.trims = true
    · -- everything above the first slot is empty once the answer is taken
      have notWalking : ∀ lower, world.control.Passed lower :=
        fun lower queuePos isAt => (sound.not_walking (by simp [locked]) isAt).elim
      have empty : ∀ lower, 1 ≤ lower → lower < world.client.queueSize →
            ((world.client.clearSlot slot).queue lower).op = .none := by
        intro lower positive below
        by_cases here : lower = slot
        · subst here
          show (update world.client.queue lower _ lower).op = .none
          rw [update_self]
        · show (update world.client.queue slot _ lower).op = .none
          rw [update_of_ne here]
          refine roomy.walked call slot isSlot isAnswer lower positive ?_ (notWalking lower)
          rw [← isLast] at below
          exact Nat.lt_of_le_of_ne (Nat.le_of_lt_succ below) here
      have small : (takeAnswer world.client call slot).queueSize ≤ 1 := by
        cases call with
        | stop => exact absurd trims (by simp [ThreadCall.trims])
        | _ => exact shrunkSize_le_one empty
      exact Nat.le_add_right_of_le small
    · refine Nat.le_trans shrinks (roomy.size ?_)
      intro otherCall otherSlot isOwn
      rw [isSlot] at isOwn
      simp only [some.injEq, Prod.mk.injEq] at isOwn
      rw [← isOwn.1]
      simpa using trims

variable {queuePos : Nat} {answer : ThreadOp} {worker : Worker}

/-- A slot that is not the caller's is empty after the worker looked at it. -/
theorem Roomy.empties (roomy : Roomy world) (below : queuePos < world.client.queueSize)
    (effect : Effect world.worker (world.client.queue queuePos) answer worker)
    (notOwn : ∀ call, (world.phase ()).slot? ≠ some (call, queuePos)) : answer.op = .none := by
  have isOp := roomy.others queuePos below notOwn
  cases effect with
  | idle idle =>
    rcases isOp with isNone | isRun | isForce
    · exact isNone
    · have someGraph := roomy.runs queuePos below isRun
      simp [Worker.executes, ThreadOp.pending, isRun, someGraph] at idle
    · simp [Worker.executes, ThreadOp.pending, isForce] at idle
  | forceStart _ _ _ | run _ _ => rfl
  | state isState => simp [isState] at isOp
  | stop isStop => simp [isStop] at isOp
  | popError isPop _ => simp [isPop] at isOp
  | rmGraph isRm _ => simp [isRm] at isOp
  | addFails isAdd _ _ | addNext isAdd _ _ | addReused isAdd _ _ => simp [isAdd] at isOp

variable {cur : ThreadOp}

/-- What is left to do in a slot was there before. -/
theorem Effect.same_of_pending {left : Worker} (effect : Effect worker cur answer left)
    (pending : answer.op ≠ .none ∧ answer.op ≠ .answer) : answer = cur ∧ left = worker := by
  cases effect with
  | idle _ => exact ⟨rfl, rfl⟩
  | popError _ isAnswer => exact absurd isAnswer pending.2
  | forceStart _ _ _ | run _ _ => exact absurd rfl pending.1
  | _ => exact absurd rfl pending.2

theorem Roomy.serves (sound : QueueSound world) (roomy : Roomy world) {control : WorkerPhase}
    {lock : Option (LockHolder Unit)} (isAt : world.control = .atOp queuePos)
    (served : switchOp world.worker (world.client.queue queuePos) = .broke answer worker)
    (next : 1 < queuePos ∧ control = .atOp (queuePos - 1) ∧ lock = world.lock ∨ ¬ 1 < queuePos ∧
        control = .polling ∧ lock = none) :
    Roomy { world.served queuePos answer worker with
        control := control
        lock := lock } := by
  have below := (sound.walking isAt).2
  have effect : Effect world.worker (world.client.queue queuePos) answer worker :=
    Serves.effect (.inl served)
  have notZero (some : world.worker.lastGraph ≠ 0) : worker.lastGraph ≠ 0 :=
    Nat.ne_of_gt (Nat.lt_of_lt_of_le (Nat.pos_of_ne_zero some) effect.lastGraph_le)
  -- the slots that the worker has passed are those above the next position
  have passed (lower : Nat) (positive : 1 ≤ lower)
      (isPassed : control.Passed lower) : queuePos ≤ lower := by
    rcases next with ⟨more, isControl, _⟩ | ⟨last, _, _⟩
    · have above := isPassed (queuePos - 1) isControl
      exact Nat.le_of_pred_lt above
    · exact Nat.le_trans (Nat.le_of_not_lt last) positive
  refine
    { roomy with
      unlocked := ?_
      freeIds := effect.freeIds roomy.freeIds
      others := ?_
      runs := ?_
      adds := ?_
      walked := ?_ }
  · intro isWorker
    rcases next with ⟨_, isControl, _⟩ | ⟨_, _, isFree⟩
    · exact ⟨_, isControl⟩
    · exact absurd (isFree.symm.trans isWorker) (by simp)
  · intro slot slotBelow notOwn
    by_cases here : slot = queuePos
    · subst here
      rw [ThreadWorld.served_self]
      exact .inl (roomy.empties below effect notOwn)
    · rw [ThreadWorld.served_of_ne _ _ here]
      exact roomy.others slot slotBelow notOwn
  · intro slot slotBelow isRun
    by_cases here : slot = queuePos
    · subst here
      rw [ThreadWorld.served_self] at isRun
      obtain ⟨sameOp, _⟩ := effect.same_of_pending (by simp [isRun])
      rw [sameOp] at isRun
      exact notZero (roomy.runs slot below isRun)
    · rw [ThreadWorld.served_of_ne _ _ here] at isRun
      exact notZero (roomy.runs slot slotBelow isRun)
  · intro slot slotBelow isAdd
    by_cases here : slot = queuePos
    · subst here
      rw [ThreadWorld.served_self] at isAdd
      obtain ⟨sameOp, sameWorker⟩ := effect.same_of_pending (by simp [isAdd])
      rw [sameOp] at isAdd
      rw [sameWorker]
      exact roomy.adds slot below isAdd
    · rw [ThreadWorld.served_of_ne _ _ here] at isAdd
      have room := roomy.adds slot slotBelow isAdd
      -- two graphs to be added would both be the caller's
      have ownSlot (other : Nat) (otherBelow : other < world.client.queueSize)
          (otherAdd : (world.client.queue other).op = .addGraph) :
          ∃ call, (world.phase ()).slot? = some (call, other) := by
        by_contra notOwn
        rcases roomy.others other otherBelow (fun call isOwn => notOwn ⟨call, isOwn⟩) with
          isOp | isOp | isOp <;> simp [isOp] at otherAdd
      refine effect.hasRoom ?_ room
      intro thisAdd
      obtain ⟨_, isOwn⟩ := ownSlot slot slotBelow isAdd
      obtain ⟨_, isOther⟩ := ownSlot queuePos below thisAdd
      rw [isOwn, some.injEq, Prod.mk.injEq] at isOther
      exact here isOther.2
  · intro call slot isOwn isAnswer lower positive lowerBelow isPassed
    have reached := passed lower positive isPassed
    by_cases here : lower = queuePos
    · subst here
      rw [ThreadWorld.served_self]
      refine roomy.empties below effect (fun other isOther => ?_)
      change (world.phase ()).slot? = some (call, slot) at isOwn
      rw [isOwn, some.injEq, Prod.mk.injEq] at isOther
      exact absurd isOther.2 (Nat.ne_of_gt lowerBelow)
    · rw [ThreadWorld.served_of_ne _ _ here]
      have above : queuePos < lower := Nat.lt_of_le_of_ne reached (Ne.symm here)
      rw [ThreadWorld.served_of_ne _ _ (Nat.ne_of_gt (Nat.lt_trans above lowerBelow))] at isAnswer
      refine roomy.walked call slot isOwn isAnswer lower positive lowerBelow ?_
      intro position isPosition
      rw [isAt] at isPosition
      cases isPosition
      exact above

/-- The lock is kept only when a graph finds no index. -/
theorem held_full {left : Worker} (held : switchOp worker cur = .held answer left) :
    cur.op = .addGraph ∧ (worker.freeGraph.top (-1)).toInt = -1 ∧
      worker.lastGraph = pgStackBlockSize := by
  unfold switchOp at held
  cases isOp : cur.op with
  | addGraph =>
    rw [isOp] at held
    simp only [serveAddGraph, placeGraph] at held
    split at held
    · rename_i empty
      split at held
      · rename_i full
        exact ⟨rfl, empty, full⟩
      · cases held
    · split at held <;> cases held
  | _ =>
    simp only [isOp, serveRmGraph, serveForceStart, serveRun, servePopError] at held
    (repeat' split at held) <;> cases held

/-- The worker ends only when it is asked to. -/
theorem quit_asked (quit : switchOp worker cur = .quit) : cur.op = .quit := by
  unfold switchOp at quit
  cases isOp : cur.op with
  | quit => rfl
  | _ =>
    simp only [isOp, serveAddGraph, placeGraph, serveRmGraph, serveForceStart, serveRun,
      servePopError] at quit
    (repeat' split at quit) <;> cases quit

/-- Nobody asks the worker to quit. -/
theorem QueueSound.not_quit (sound : QueueSound world) (below : queuePos < world.client.queueSize) :
    (world.client.queue queuePos).op ≠ .quit := by
  intro isQuit
  have pending : (world.client.queue queuePos).pending = true := by simp [ThreadOp.pending, isQuit]
  obtain ⟨_, call, _, carries⟩ := sound.carries_of_pending below pending
  rw [carries.1] at isQuit
  cases call <;> simp [ThreadCall.op] at isQuit

theorem Roomy.move (sound : QueueSound world) (roomy : Roomy world)
    (measured : Measured world label) (move : ThreadMove world label after) : Roomy after := by
  have notWalking (free : world.lock ≠ some .worker) (queuePos : Nat) :
      world.control ≠ .atOp queuePos :=
    fun isAt => sound.not_walking free isAt
  have unlocked (notAt : ∀ queuePos, world.control ≠ .atOp queuePos) :
      world.lock ≠ some .worker := by
    intro isWorker
    obtain ⟨queuePos, isAt⟩ := roomy.unlocked isWorker
    exact notAt queuePos isAt
  cases move with
  | stays => exact roomy
  | begins isIdle =>
    have sameSlot : CallerPhase.slot? (world.phase ()) = none := by
      rw [isIdle]
      rfl
    exact
      { roomy with
        others := fun slot below _ => roomy.others slot below (fun call => by simp [sameSlot])
        last := fun _ _ isOwn => absurd isOwn (by simp [CallerPhase.slot?])
        size := fun _ => roomy.size (fun _ _ isOwn => by simp [sameSlot] at isOwn)
        walked := fun _ _ isOwn => absurd isOwn (by simp [CallerPhase.slot?]) }
  | enters isEntering free _ =>
    obtain ⟨trimmed, room, someGraph⟩ := measured _ isEntering
    exact roomy.enters isEntering free trimmed room someGraph
  | finds isWaiting free _ =>
    refine roomy.transport rfl rfl ?_ rfl rfl (fun isWorker => absurd isWorker (by simp))
      (notWalking (by simp [free]))
    simp only [update_self]
    rw [isWaiting]
    rfl
  | asserts isWaiting isNone => exact absurd isNone (sound.waiting isWaiting).ne_none
  | takes isHolding => exact roomy.takes sound isHolding
  | locks isTop free _ =>
    exact roomy.transport rfl rfl rfl rfl rfl (fun _ => ⟨_, rfl⟩) (fun queuePos => by simp [isTop])
  | skips isResting | rests isResting _ =>
    have notAt (queuePos : Nat) : world.control ≠ .atOp queuePos := by simp [isResting]
    exact roomy.transport rfl rfl rfl rfl rfl
      (fun isWorker => absurd isWorker (unlocked notAt)) notAt
  | serves isAt served next => exact roomy.serves sound isAt served next
  | keepsLock isAt held =>
    obtain ⟨isAdd, empty, full⟩ := held_full held
    have room := roomy.adds _ (sound.walking isAt).2 isAdd
    exact absurd full (ne_addFails roomy.freeIds room empty)
  | quits isAt quit => exact absurd (quit_asked quit) (sound.not_quit (sound.walking isAt).2)
  | polls isPolling notStopped =>
    have notAt (queuePos : Nat) : world.control ≠ .atOp queuePos := by simp [isPolling]
    obtain ⟨sameFree, sameLast⟩ := pollRounds_indices _ notStopped pollLoops
    exact roomy.transport rfl rfl rfl sameFree sameLast
      (fun isWorker => absurd isWorker (unlocked notAt)) notAt

theorem roomy_of_reachable (reachable : ((threadSystem Unit).guarded Measured).Reachable world) :
    RoomyQueue world := by
  refine threadSystem_invariant ?_ ?_ reachable
  · intro graphs started
    refine ⟨queueSound_start graphs started, ?_⟩
    exact
      { unlocked := fun isWorker => absurd isWorker (by simp [ThreadWorld.start])
        counted := Nat.zero_le _
        freeIds := fun _ member => absurd member not_mem_nil
        others := fun _ below => absurd below (Nat.not_lt_zero _)
        runs := fun _ below => absurd below (Nat.not_lt_zero _)
        adds := fun _ below => absurd below (Nat.not_lt_zero _)
        last := fun _ _ isOwn => absurd isOwn (by simp [ThreadWorld.start, CallerPhase.slot?])
        size := fun _ => Nat.zero_le _
        walked := fun _ _ isOwn => absurd isOwn (by simp [ThreadWorld.start, CallerPhase.slot?]) }
  · rintro before label after ⟨sound, roomy⟩ measured move
    exact ⟨sound.move move, roomy.move sound measured move⟩

/--
With a measured caller the worker does not hold the lock at the end of an
iteration, and the queue has room whenever no call is in progress.
-/
theorem thread_queue_has_room (reachable : ((threadSystem Unit).guarded Measured).Reachable world) :
    (world.control = .top → world.lock ≠ some .worker) ∧
      (world.phase () = .idle → world.client.queueSize + 1 < pgThreadMaxOp) := by
  obtain ⟨_, roomy⟩ := roomy_of_reachable reachable
  constructor
  · intro isTop isWorker
    obtain ⟨queuePos, isAt⟩ := roomy.unlocked isWorker
    rw [isTop] at isAt
    cases isAt
  · intro isIdle
    have small : world.client.queueSize ≤ 1 + untrimmed world.issued :=
      roomy.size (fun _ _ isOwn => by simp [isIdle, CallerPhase.slot?] at isOwn)
    have counted := roomy.counted
    unfold pgThreadMaxOp
    omega

end Steps

instance (world : ThreadWorld Unit) (label : ThreadLabel Unit) :
    Decidable (Measured world label) := by
  cases label with
  | enqueue who =>
    unfold Measured Worker.HasRoom
    dsimp only
    cases world.phase who with
    | entering call =>
      refine decidable_of_iff ((call.trims = false → untrimmed world.issued < 125) ∧
        (call.op = .addGraph → world.worker.freeGraph.values ≠ [] ∨
          world.worker.lastGraph < pgStackBlockSize) ∧
        (call.op = .run → world.worker.lastGraph ≠ 0)) ?_
      simp
    | idle | waiting | holding => exact .isTrue (by simp)
  | begin | tryGetAnswer | takeAnswer | tryLock | lockFails | switch | poll => exact .isTrue trivial

/-- A measured caller adds a graph, runs the thread, stops it and asks for its state. -/
theorem thread_queue_has_room_four :
    ∃ world : ThreadWorld Unit,
      ((threadSystem Unit).guarded Measured).Reachable world ∧
      world.returned = [((), 0, .code 0), ((), 2, .code 0), ((), 3, .state 0#64)] ∧
      world.client.queueSize + 1 < pgThreadMaxOp := by
  have started : ((threadSystem Unit).guarded Measured).Reachable idleThread := .initial ⟨_, _, rfl⟩
  have ran : (afterUnder ThreadWorld.step Measured idleThread fourCalls).any (fun world =>
        world.returned = [((), 0, .code 0), ((), 2, .code 0), ((), 3, .state 0#64)] ∧
        (world.phase ()).isIdle = true) = true := by
    decide +kernel
  obtain ⟨world, ran, isWorld⟩ := (Option.any_eq_true _ _).mp ran
  obtain ⟨isReturned, isIdle⟩ := of_decide_eq_true isWorld
  have reachable := started.afterUnder ran
  refine ⟨world, reachable, isReturned, (thread_queue_has_room reachable).2 ?_⟩
  cases isPhase : world.phase () with
  | idle => rfl
  | entering | waiting | holding =>
    rw [isPhase] at isIdle
    cases isIdle

/-- A caller runs a thread without a graph any number of times. -/
theorem runs_queued {count : Nat} (small : count + 1 ≤ pgThreadMaxOp) :
    ∃ world : ThreadWorld Unit,
      (threadSystem Unit).Reachable world ∧ world.phase () = .idle ∧ world.lock = none ∧
        world.control = .top ∧
        world.worker.lastGraph = 0 ∧
        world.client.queueSize = count ∧
        ∀ slot < count, (world.client.queue slot).op = .run := by
  induction count with
  | zero =>
    exact ⟨idleThread, .initial ⟨_, _, rfl⟩, rfl, rfl, rfl, rfl, rfl,
      fun _ below => absurd below (Nat.not_lt_zero _)⟩
  | succ count ih =>
    obtain ⟨world, reachable, isIdle, free, isTop, noGraph, isSize, isRun⟩ :=
      ih (Nat.le_of_succ_le small)
    have notFull : world.client.queueSize + 1 ≠ pgThreadMaxOp := by
      rw [isSize]
      exact Nat.ne_of_lt small
    have begun : world.step (.begin () .run) = some { world with
              phase := update world.phase () (.entering .run) } := by
      simp only [ThreadWorld.step, ThreadWorld.begin, isIdle]
      rfl
    let entering : ThreadWorld Unit :=
      { world with phase := update world.phase () (.entering .run) }
    have entered : entering.step (.enqueue ()) = some (entering.entered () .run) := by
      simp only [ThreadWorld.step, ThreadWorld.enqueue, entering,
        update_self, free, enqueue, if_neg notFull]
      rfl
    refine ⟨entering.entered () .run,
      .step (.enqueue ()) (.step (.begin () .run) reachable begun) entered,
      ?_, free, isTop, noGraph, congrArg Nat.succ isSize, ?_⟩
    · simp only [ThreadWorld.entered, update_self]
      rfl
    · intro slot below
      simp only [ThreadWorld.entered, entering, isSize]
      by_cases here : slot = count
      · rw [here, update_self]
        rfl
      · rw [update_of_ne here]
        exact isRun slot (Nat.lt_of_le_of_ne (Nat.le_of_lt_succ below) here)

/--
A caller ran a thread without a graph until the queue is full: nothing can be
executed and nothing more can be enqueued.
-/
theorem thread_queue_wedges :
    ∃ world : ThreadWorld Unit, (threadSystem Unit).Reachable world ∧ world.phase () = .idle ∧
        (∀ slot < world.client.queueSize, world.worker.executes (world.client.queue slot) = false) ∧
        world.client.queueSize + 1 = pgThreadMaxOp ∧
        ∀ call, enqueue world.client call = none := by
  obtain ⟨world, reachable, isIdle, _, _, noGraph, isSize, isRun⟩ :=
    runs_queued (show 127 + 1 ≤ pgThreadMaxOp from Nat.le_refl _)
  have full : world.client.queueSize + 1 = pgThreadMaxOp := congrArg Nat.succ isSize
  refine ⟨world, reachable, isIdle, ?_, full, fun call => if_pos full⟩
  intro slot below
  have stuck := isRun slot (isSize ▸ below)
  simp [Worker.executes, stuck, noGraph]

end PacketGraph
