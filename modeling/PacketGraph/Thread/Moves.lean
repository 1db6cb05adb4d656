import PacketGraph.Thread.System

namespace PacketGraph

open Function List TransitionSystem

/-!
# What the steps of a thread can do

The cases of one step, with what each of them needs and leaves.  The results
about threads are case analyses over these.
-/

variable {κ : Type}

section Switch

variable {worker after : Worker} {cur answer : ThreadOp}

/-- An operation that takes no effect is left as it is. -/
theorem switchOp_of_not_executes (idle : worker.executes cur = false) :
    switchOp worker cur = .broke cur worker := by
  unfold switchOp
  simp only [Worker.executes, ThreadOp.pending] at idle
  cases isOp : cur.op with
  | none | answer => rfl
  | run =>
    have noGraph : worker.lastGraph = 0 := by simpa [isOp] using idle
    simp only [serveRun, noGraph, ↓reduceIte]
  | state | addGraph | rmGraph | popError | forceStart | stop | quit => simp [isOp] at idle

theorem pending_of_executes (executes : worker.executes cur = true) : cur.pending = true := by
  unfold Worker.executes at executes
  simp only [decide_eq_true_eq] at executes
  exact executes.1

/-- How the switch ends, apart from leaving the program. -/
def Serves (worker : Worker) (cur answer : ThreadOp) (after : Worker) : Prop :=
  switchOp worker cur = .broke answer after ∨ switchOp worker cur = .held answer after

/-- What executing an operation does, case by case. -/
inductive Effect : Worker → ThreadOp → ThreadOp → Worker → Prop where
  | idle {worker : Worker} {cur : ThreadOp} : worker.executes cur = false →
      Effect worker cur cur worker
  | state {worker : Worker} {cur : ThreadOp} : cur.op = .state → Effect worker cur
        { cur with op := .answer, arg := worker.state.toBits } worker
  | stop {worker : Worker} {cur : ThreadOp} : cur.op = .stop →
      Effect worker cur { cur with op := .answer } { worker with state := .stopped }
  | popError {worker : Worker} {cur answer : ThreadOp} : cur.op = .popError → answer.op = .answer →
      Effect worker cur answer { worker with
          errors := worker.errors.rest
          errorsGid := worker.errorsGid.rest }
  | rmGraph {worker : Worker} {cur : ThreadOp} : cur.op = .rmGraph → IsGraphIndex cur.rmId →
      Effect worker cur
        { cur with op := .answer, arg := worker.graphs cur.rmId.toNat } { worker with
          freeGraph := worker.freeGraph.push (BitVec.ofInt 8 cur.rmId)
          started := update worker.started cur.rmId.toNat .stopped }
  | addFails {worker : Worker} {cur : ThreadOp} : cur.op = .addGraph →
      (worker.freeGraph.top (-1)).toInt = -1 → worker.lastGraph = pgStackBlockSize →
      Effect worker cur { cur with op := .answer, arg := setI32 cur.arg (-1) }
        { worker with freeGraph := worker.freeGraph.rest }
  | addNext {worker : Worker} {cur : ThreadOp} : cur.op = .addGraph →
      (worker.freeGraph.top (-1)).toInt = -1 → worker.lastGraph ≠ pgStackBlockSize →
      Effect worker cur { cur with
          op := .answer
          arg := setI32 cur.arg (BitVec.ofNat 32 worker.lastGraph) }
        { worker with
          freeGraph := worker.freeGraph.rest
          lastGraph := worker.lastGraph + 1
          graphs := update worker.graphs worker.lastGraph cur.arg
          started :=
            update worker.started worker.lastGraph .running }
  | addReused {worker : Worker} {cur : ThreadOp} {id : Nat} : cur.op = .addGraph →
      (worker.freeGraph.top (-1)).toInt = id → id < pgStackBlockSize → Effect worker cur { cur with
          op := .answer
          arg := setI32 cur.arg (BitVec.ofNat 32 id) }
        { worker with
          freeGraph := worker.freeGraph.rest
          graphs := update worker.graphs id cur.arg
          started := update worker.started id .running }
  | forceStart {worker : Worker} {cur : ThreadOp} {state : PgThreadState} : cur.op = .forceStart →
      IsGraphIndex cur.startId → (state = .running ∧ (∀ i < worker.lastGraph,
            update worker.started cur.startId.toNat .running i ≠ .broken) ∨
        state = worker.state) → Effect worker cur { cur with op := .none } { worker with
          started := update worker.started cur.startId.toNat .running
          state := state }
  | run {worker : Worker} {cur : ThreadOp} : cur.op = .run → worker.lastGraph ≠ 0 →
      Effect worker cur { cur with op := .none } { worker with
          started := fun i => if i < worker.lastGraph ∧ worker.started i = .broken then
              .running
            else
              worker.started i
          state := .running }

/-- Adding a graph takes a freed index or the next one. -/
theorem effect_addGraph (isAdd : cur.op = .addGraph)
    (serves : serveAddGraph worker cur = .broke answer after ∨ serveAddGraph worker cur = .held
        answer after) : Effect worker cur answer after := by
  unfold serveAddGraph at serves
  by_cases empty : (worker.freeGraph.top (-1)).toInt = -1
  · by_cases full : worker.lastGraph = pgStackBlockSize
    · simp only [empty, full, ↓reduceIte] at serves
      rcases serves with served | served <;> cases served
      exact full ▸ .addFails isAdd empty full
    · simp only [empty, full, ↓reduceIte, placeGraph] at serves
      rcases serves with served | served <;> cases served
      exact .addNext isAdd empty full
  · by_cases isIndex : IsGraphIndex (worker.freeGraph.top (-1)).toInt
    · simp only [empty, isIndex, ↓reduceIte, placeGraph] at serves
      obtain ⟨id, isId⟩ := Int.eq_ofNat_of_zero_le isIndex.1
      rw [isId, Int.toNat_natCast] at serves
      have below : id < pgStackBlockSize := by
        have bound := isIndex.2
        rw [isId] at bound
        exact Int.ofNat_lt.mp bound
      rcases serves with served | served <;> cases served
      exact .addReused isAdd isId below
    · simp only [empty, isIndex, ↓reduceIte] at serves
      rcases serves with served | served <;> cases served

/-- Starting a graph starts the thread if nothing is broken any more. -/
theorem effect_forceStart (isStart : cur.op = .forceStart)
    (serves : serveForceStart worker cur = .broke answer after ∨ serveForceStart worker cur = .held
        answer after) : Effect worker cur answer after := by
  unfold serveForceStart at serves
  by_cases isIndex : IsGraphIndex cur.startId
  · simp only [isIndex, ↓reduceIte] at serves
    rcases serves with served | served <;> cases served
    refine .forceStart isStart isIndex ?_
    split
    · rename_i sane
      refine .inl ⟨rfl, fun i below isBroken => ?_⟩
      have noneBroken := sane.1
      simp only [Worker.anyBroken, any_eq_true, not_exists] at noneBroken
      exact noneBroken i ⟨mem_range.mpr below, by simpa using isBroken⟩
    · exact .inr rfl
  · simp only [isIndex, ↓reduceIte] at serves
    rcases serves with served | served <;> cases served

section

variable (serves : Serves worker cur answer after)

include serves

/-- The switch does what its cases say. -/
theorem Serves.effect : Effect worker cur answer after := by
  unfold Serves switchOp at serves
  cases isOp : cur.op <;> rw [isOp] at serves
  case addGraph => exact effect_addGraph isOp serves
  case forceStart => exact effect_forceStart isOp serves
  case rmGraph =>
    simp only [serveRmGraph] at serves
    split at serves
    · rcases serves with served | served <;> cases served
      exact .rmGraph isOp ‹_›
    · rcases serves with served | served <;> cases served
  case run =>
    simp only [serveRun] at serves
    split at serves
    · rename_i noGraph
      rcases serves with served | served <;> cases served
      exact .idle (by simp [Worker.executes, isOp, noGraph])
    · rcases serves with served | served <;> cases served
      exact .run isOp ‹_›
  all_goals rcases serves with served | served <;> cases served
  case popError => exact .popError isOp rfl
  case stop => exact .stop isOp
  case state => exact .state isOp
  case none | answer => exact .idle (by simp [Worker.executes, ThreadOp.pending, isOp])

/-- An operation that took effect left an answer or an empty slot. -/
theorem Serves.slot_cases (executes : worker.executes cur = true) :
    (cur.op = .run ∨ cur.op = .forceStart) ∧ answer.op = .none ∨
      (cur.op ≠ .run ∧ cur.op ≠ .forceStart) ∧ answer.op = .answer := by
  cases serves.effect with
  | idle idle => exact absurd executes (by simp [idle])
  | state isOp | stop isOp => exact .inr ⟨by simp [isOp], rfl⟩
  | popError isOp isAnswer => exact .inr ⟨by simp [isOp], isAnswer⟩
  | rmGraph isOp _ | addFails isOp _ _ | addNext isOp _ _ | addReused isOp _ _ =>
    exact .inr ⟨by simp [isOp], rfl⟩
  | forceStart isOp _ _ => exact .inl ⟨.inr isOp, rfl⟩
  | run isOp _ => exact .inl ⟨.inl isOp, rfl⟩

theorem Serves.not_pending (executes : worker.executes cur = true) : answer.pending = false := by
  rcases serves.slot_cases executes with ⟨_, isOp⟩ | ⟨_, isOp⟩ <;> simp [ThreadOp.pending, isOp]

end

end Switch

section Queue

/-- Shrinking stops above the last slot in use. -/
theorem shrunkSize_le (queue : Nat → ThreadOp) (size : Nat) : shrunkSize queue size ≤ size := by
  induction size with
  | zero => exact Nat.le_refl 0
  | succ size ih =>
    unfold shrunkSize
    split
    · exact Nat.le_succ_of_le ih
    · exact Nat.le_refl _

theorem lt_shrunkSize {queue : Nat → ThreadOp} {size slot : Nat} (below : slot < size)
    (inUse : (queue slot).op ≠ .none) : slot < shrunkSize queue size := by
  induction size with
  | zero => exact absurd below (Nat.not_lt_zero slot)
  | succ size ih =>
    unfold shrunkSize
    split
    · rename_i isEmpty
      rcases Nat.lt_succ_iff_lt_or_eq.mp below with lower | same
      · exact ih lower
      · exact absurd (same ▸ isEmpty) inUse
    · exact below

section

variable (client : PgThreadClient) (call : ThreadCall) (slot : Nat)

theorem takeAnswer_queue :
    (takeAnswer client call slot).queue = update client.queue slot
        { client.queue slot with op := .none } := by
  cases call <;> rfl

theorem takeAnswer_size_le : (takeAnswer client call slot).queueSize ≤ client.queueSize := by
  cases call <;> exact shrunkSize_le _ _

end

theorem lt_takeAnswer_size {client : PgThreadClient} {slot other : Nat} (call : ThreadCall)
    (below : other < client.queueSize) (elsewhere : other ≠ slot)
    (inUse : (client.queue other).op ≠ .none) :
    other < (takeAnswer client call slot).queueSize := by
  have kept : ((client.clearSlot slot).queue other).op ≠ .none := by
    show (update client.queue slot _ other).op ≠ .none
    rw [update_of_ne elsewhere]
    exact inUse
  have sizeAfterClear : other < shrunkSize (client.clearSlot slot).queue client.queueSize :=
    lt_shrunkSize below kept
  cases call with
  | stop => exact lt_shrunkSize below inUse
  | state | run | addGraph _ | popError | forceStartGraph _ | popGraph _ => exact sizeAfterClear

end Queue

variable {world : ThreadWorld κ}

/-- An operation is looked at: it takes effect, or nothing happens. -/
theorem ThreadWorld.served_cases {queuePos : Nat} {answer : ThreadOp} {worker : Worker}
    (serves : Serves world.worker (world.client.queue queuePos) answer worker) :
    (worker = world.worker ∧ (world.served queuePos answer worker).log = world.log) ∨
      world.worker.executes (world.client.queue queuePos) = true ∧
        Effect world.worker (world.client.queue queuePos) answer worker ∧
        (world.served queuePos answer worker).log = world.log ++
            [.executed (world.tickets queuePos) world.worker (world.client.queue queuePos)] := by
  by_cases executes : world.worker.executes (world.client.queue queuePos) = true
  · refine .inr ⟨executes, serves.effect, ?_⟩
    simp only [ThreadWorld.served, ThreadWorld.logged, executes, ↓reduceIte]
  · refine .inl ⟨?_, ?_⟩
    · have idle := switchOp_of_not_executes (by simpa using executes)
      rcases serves with served | served <;> rw [idle] at served <;> cases served
      rfl
    · simp only [ThreadWorld.served, ThreadWorld.logged, executes, Bool.false_eq_true, ↓reduceIte]

theorem ThreadWorld.served_self (queuePos : Nat) (answer : ThreadOp)
    (worker : Worker) : (world.served queuePos answer worker).client.queue queuePos = answer := by
  simp only [ThreadWorld.served, update_self]

theorem ThreadWorld.served_of_ne {slot queuePos : Nat}
    (answer : ThreadOp) (worker : Worker) (elsewhere : slot ≠ queuePos) :
    (world.served queuePos answer worker).client.queue slot = world.client.queue slot := by
  simp only [ThreadWorld.served, update_of_ne elsewhere]

theorem takeAnswer_of_ne {client : PgThreadClient} {other slot : Nat} (call : ThreadCall)
    (elsewhere : other ≠ slot) :
    (takeAnswer client call slot).queue other = client.queue other := by
  rw [takeAnswer_queue, update_of_ne elsewhere]

/-- A value of an updated function is the new one or an old one. -/
theorem update_eq_cases {α β : Type} [DecidableEq α] {values : α → β} {index i : α}
    {value found : β} (isFound : update values index value i = found) :
    i = index ∧ value = found ∨ i ≠ index ∧ values i = found := by
  by_cases here : i = index
  · rw [here, update_self] at isFound
    exact .inl ⟨here, isFound⟩
  · rw [update_of_ne here] at isFound
    exact .inr ⟨here, isFound⟩

variable [DecidableEq κ]

/-- The queue and the history after an operation entered the queue. -/
def ThreadWorld.entered (world : ThreadWorld κ) (who : κ) (call : ThreadCall) : ThreadWorld κ :=
  let slot := world.client.queueSize
  let old := world.client.queue slot
  { world with
    client :=
      { queueSize := slot + 1
        queue :=
          update world.client.queue slot { old with op := call.op, arg := call.arg old.arg } }
    tickets := update world.tickets slot world.issued.length
    issued := world.issued ++ [(who, call)]
    phase :=
      update world.phase who (if call.waits then .waiting call slot world.issued.length
        else .idle) }

section Slots

variable {world : ThreadWorld κ} {who : κ} {call : ThreadCall} {slot : Nat}

/-- Below its end the queue is left alone by an operation that enters. -/
theorem ThreadWorld.entered_of_lt (below : slot < world.client.queueSize) :
    (world.entered who call).client.queue slot = world.client.queue slot ∧
      (world.entered who call).tickets slot = world.tickets slot := by
  simp only [ThreadWorld.entered, update_of_ne (Nat.ne_of_lt below), and_self]

theorem ThreadWorld.entered_cases (below : slot < (world.entered who call).client.queueSize) :
    slot < world.client.queueSize ∨ slot = world.client.queueSize :=
  Nat.lt_succ_iff_lt_or_eq.mp below

end Slots

/-- What a step can be. -/
inductive ThreadMove : ThreadWorld κ → ThreadLabel κ → ThreadWorld κ → Prop where
  | stays {world : ThreadWorld κ} {label : ThreadLabel κ} : ThreadMove world label world
  | begins {world : ThreadWorld κ} {who : κ} {call : ThreadCall} : world.phase who = .idle →
      ThreadMove world (.begin who call) { world with
          phase := update world.phase who (.entering call) }
  | enters {world : ThreadWorld κ} {who : κ} {call : ThreadCall} :
      world.phase who = .entering call → world.lock = none →
      world.client.queueSize + 1 ≠ pgThreadMaxOp →
      ThreadMove world (.enqueue who) (world.entered who call)
  | finds {world : ThreadWorld κ} {who : κ} {call : ThreadCall} {slot ticket : Nat} :
      world.phase who = .waiting call slot ticket → world.lock = none →
      (world.client.queue slot).op = .answer → ThreadMove world (.tryGetAnswer who) { world with
          lock := some (.caller who)
          phase :=
            update world.phase who (.holding call slot ticket) }
  | asserts {world : ThreadWorld κ} {who : κ} {call : ThreadCall} {slot ticket : Nat} :
      world.phase who = .waiting call slot ticket → (world.client.queue slot).op = .none →
      ThreadMove world (.tryGetAnswer who) { world with asserted := true }
  | takes {world : ThreadWorld κ} {who : κ} {call : ThreadCall} {slot ticket : Nat} :
      world.phase who = .holding call slot ticket → ThreadMove world (.takeAnswer who) { world with
          client := takeAnswer world.client call slot
          lock := none
          phase := update world.phase who .idle
          returned :=
            world.returned ++ [(who, ticket, call.result (world.client.queue slot))] }
  | locks {world : ThreadWorld κ} : world.control = .top → world.lock = none →
      world.client.queueSize ≠ 0 → ThreadMove world .tryLock { world with
          lock := some .worker
          control := .atOp (world.client.queueSize - 1) }
  | skips {world : ThreadWorld κ} : world.control = .top →
      ThreadMove world .lockFails { world with control := .polling }
  | serves {world : ThreadWorld κ} {queuePos : Nat} {cur : ThreadOp}
      {worker : Worker} {control : WorkerPhase} {lock : Option (LockHolder κ)} :
      world.control = .atOp queuePos → switchOp world.worker (world.client.queue queuePos) =
        .broke cur worker → (1 < queuePos ∧ control = .atOp (queuePos - 1) ∧ lock = world.lock ∨
        ¬ 1 < queuePos ∧ control = .polling ∧ lock = none) → ThreadMove world .switch
        { world.served queuePos cur worker with control := control, lock := lock }
  | keepsLock {world : ThreadWorld κ} {queuePos : Nat} {cur : ThreadOp} {worker : Worker} :
      world.control = .atOp queuePos → switchOp world.worker (world.client.queue queuePos) =
        .held cur worker → ThreadMove world .switch
        { world.served queuePos cur worker with control := .top }
  | quits {world : ThreadWorld κ} {queuePos : Nat} : world.control = .atOp queuePos →
      switchOp world.worker (world.client.queue queuePos) = .quit →
      ThreadMove world .switch { world with control := .ended, lock := none }
  | rests {world : ThreadWorld κ} {outcomes : Nat → Nat → Option (BitVec 64)} :
      world.control = .polling → world.worker.state = .stopped →
      ThreadMove world (.poll outcomes) { world with control := .top }
  | polls {world : ThreadWorld κ} {outcomes : Nat → Nat → Option (BitVec 64)} :
      world.control = .polling → world.worker.state ≠ .stopped → ThreadMove world (.poll outcomes)
        { world with
          worker := (pollRounds outcomes world.worker pollLoops).1
          control := .top
          log :=
            world.log ++ (pollRounds outcomes world.worker pollLoops).2.map .polled }

variable {before : ThreadWorld κ} {label : ThreadLabel κ} {after : ThreadWorld κ}

/-- Every step is one of the moves. -/
theorem ThreadWorld.move_of_step
    (stepped : before.step label = some after) : ThreadMove before label after := by
  cases label with
  | begin who call =>
    simp only [ThreadWorld.step, ThreadWorld.begin] at stepped
    split at stepped
    · split at stepped
      · cases stepped
        exact .stays
      · cases stepped
        exact .begins ‹_›
    · cases stepped
  | enqueue who =>
    simp only [ThreadWorld.step, ThreadWorld.enqueue, PacketGraph.enqueue] at stepped
    split at stepped
    · by_cases full : before.client.queueSize + 1 = pgThreadMaxOp
      · rw [if_pos full] at stepped
        cases stepped
        exact .stays
      · rw [if_neg full] at stepped
        cases stepped
        exact .enters ‹_› ‹_› full
    · cases stepped
  | tryGetAnswer who =>
    simp only [ThreadWorld.step, ThreadWorld.tryGetAnswer] at stepped
    split at stepped
    · split at stepped
      · cases stepped
        exact .finds ‹_› ‹_› ‹_›
      · split at stepped
        · cases stepped
          exact .asserts ‹_› ‹_›
        · cases stepped
          exact .stays
    · cases stepped
  | tryLock =>
    simp only [ThreadWorld.step, ThreadWorld.tryLock] at stepped
    split at stepped
    · split at stepped
      · cases stepped
        exact .stays
      · cases stepped
        exact .locks ‹_› ‹_› ‹_›
    · cases stepped
  | switch =>
    simp only [ThreadWorld.step, ThreadWorld.switch] at stepped
    split at stepped
    · split at stepped
      · split at stepped
        · cases stepped
          exact .serves ‹_› ‹_› (.inl ⟨‹_›, rfl, rfl⟩)
        · cases stepped
          exact .serves ‹_› ‹_› (.inr ⟨‹_›, rfl, rfl⟩)
      · cases stepped
        exact .keepsLock ‹_› ‹_›
      · cases stepped
        exact .quits ‹_› ‹_›
      · cases stepped
    · cases stepped
  | poll outcomes =>
    simp only [ThreadWorld.step, ThreadWorld.poll] at stepped
    split at stepped
    · split at stepped
      · cases stepped
        exact .rests ‹_› ‹_›
      · cases stepped
        exact .polls ‹_› ‹_›
    · cases stepped
  | takeAnswer _ | lockFails =>
    simp only [ThreadWorld.step, ThreadWorld.takeAnswer, ThreadWorld.lockFails] at stepped
    split at stepped
    · cases stepped
      constructor
      assumption
    · cases stepped

/-- What a move does to the worker and to the history. -/
theorem ThreadMove.worker_cases (move : ThreadMove before label after) :
    (after.worker = before.worker ∧ after.log = before.log) ∨
      (∃ queuePos answer, label = .switch ∧ before.control = .atOp queuePos ∧
          before.worker.executes (before.client.queue queuePos) = true ∧
          Effect before.worker (before.client.queue queuePos) answer after.worker ∧
          after.issued = before.issued ∧
          after.log = before.log ++ [.executed (before.tickets queuePos) before.worker
                (before.client.queue queuePos)]) ∨
      ∃ outcomes, before.worker.state ≠ .stopped ∧ after.worker =
            (pollRounds outcomes before.worker pollLoops).1 ∧
          after.log = before.log ++
              (pollRounds outcomes before.worker pollLoops).2.map .polled := by
  cases move with
  | stays | begins _ | enters _ _ _ | finds _ _ _ | asserts _ _ | takes _ | locks _ _ _
  | skips _ => exact .inl ⟨rfl, rfl⟩
  | serves isAt served _ =>
    rcases ThreadWorld.served_cases (.inl served) with
      ⟨sameWorker, sameLog⟩ | ⟨executes, effect, isLog⟩
    · exact .inl ⟨sameWorker, sameLog⟩
    · exact .inr (.inl ⟨_, _, rfl, isAt, executes, effect, rfl, isLog⟩)
  | keepsLock isAt held =>
    rcases ThreadWorld.served_cases (.inr held) with
      ⟨sameWorker, sameLog⟩ | ⟨executes, effect, isLog⟩
    · exact .inl ⟨sameWorker, sameLog⟩
    · exact .inr (.inl ⟨_, _, rfl, isAt, executes, effect, rfl, isLog⟩)
  | quits _ _ | rests _ _ => exact .inl ⟨rfl, rfl⟩
  | @polls outcomes _ notStopped => exact .inr (.inr ⟨outcomes, notStopped, rfl, rfl⟩)

/-- What was issued stays issued. -/
theorem ThreadMove.issued_cases (move : ThreadMove before label after) :
    after.issued = before.issued ∨ ∃ who call, label = .enqueue who ∧ before.lock = none ∧
          before.phase who = .entering call ∧
          after = before.entered who call := by
  cases move with
  | enters isEntering free _ => exact .inr ⟨_, _, rfl, free, isEntering, rfl⟩
  | stays | begins _ | finds _ _ _ | asserts _ _ | takes _ | locks _ _ _ | skips _
  | serves _ _ _ | keepsLock _ _ | quits _ _ | rests _ _ | polls _ _ => exact .inl rfl

theorem ThreadMove.issued_prefix (move : ThreadMove before label after) :
    before.issued <+: after.issued := by
  rcases move.issued_cases with same | ⟨who, call, _, _, _, rfl⟩
  · exact same ▸ prefix_refl _
  · exact ⟨[(who, call)], rfl⟩

/-- A property that every move keeps holds in every run. -/
@[elab_as_elim]
theorem threadSystem_invariant
    {guard : ThreadWorld κ → ThreadLabel κ → Prop} {motive : ThreadWorld κ → Prop}
    (atStart : ∀ graphs started, motive (ThreadWorld.start graphs started))
    (kept : ∀ before label after, motive before → guard before label → ThreadMove before label after
        → motive after) (reachable : ((threadSystem κ).guarded guard).Reachable world) :
    motive world := by
  refine reachable.invariant ?_ ?_
  · rintro start ⟨graphs, started, rfl⟩
    exact atStart graphs started
  · rintro before label after holds ⟨guarded, stepped⟩
    exact kept before label after holds guarded (ThreadWorld.move_of_step stepped)

end PacketGraph
