import PacketGraph.Thread.Moves

namespace PacketGraph

open List TransitionSystem

/-!
# The states of a thread and of its graphs

A graph is known by its index in the arrays of the worker.  A thread that runs
has no broken graph, a stopped one polls nothing, and a graph that failed
waits until somebody starts it again.  The failure of one graph does not take
the turn of another one.

The results about the history of the worker follow one rule: what executing an
operation and the turn of one graph keep holds in every run.
-/

section Turns

variable (outcome : Option (BitVec 64)) (i : Nat)

/-- A turn leaves the indices alone. -/
theorem pollTurn_indices (worker : Worker) :
    (pollTurn outcome i worker).1.freeGraph = worker.freeGraph ∧
      (pollTurn outcome i worker).1.lastGraph = worker.lastGraph := by
  unfold pollTurn
  split
  · exact ⟨rfl, rfl⟩
  · split <;> exact ⟨rfl, rfl⟩

theorem pollTurn_polls (worker : Worker) :
    (pollTurn outcome i worker).2 = [] ∨ ∃ poll, (pollTurn outcome i worker).2 = [poll] := by
  unfold pollTurn
  split
  · exact .inl rfl
  · split <;> exact .inr ⟨_, rfl⟩

variable {worker : Worker}

theorem pollTurn_state_ne_stopped (notStopped : worker.state ≠ .stopped) :
    (pollTurn outcome i worker).1.state ≠ .stopped := by
  unfold pollTurn
  split
  · exact notStopped
  · split
    · exact notStopped
    · simp

variable (property : Worker → List PollEvent → Prop)

/-- What a turn keeps is kept by the turns of a round. -/
theorem pollTurns_keep
    (turned : ∀ worker polls outcome i, property worker polls → worker.state ≠ .stopped → i <
        worker.lastGraph → property (pollTurn outcome i worker).1 (polls ++ (pollTurn outcome i
        worker).2)) (outcomes : Nat → Option (BitVec 64)) (polls : List PollEvent)
    (holds : property worker polls) (notStopped : worker.state ≠ .stopped) {count : Nat}
    (inRange : count ≤ worker.lastGraph) :
    property (pollTurns outcomes worker count).1 (polls ++ (pollTurns outcomes worker count).2) ∧
      (pollTurns outcomes worker count).1.state ≠ .stopped ∧
      (pollTurns outcomes worker count).1.lastGraph = worker.lastGraph := by
  induction count with
  | zero =>
    refine ⟨?_, notStopped, rfl⟩
    simpa [pollTurns] using holds
  | succ count ih =>
    obtain ⟨before, awake, sameLast⟩ := ih (Nat.le_of_succ_le inRange)
    simp only [pollTurns]
    rw [← append_assoc]
    refine ⟨turned _ _ _ _ before awake (sameLast ▸ inRange),
      pollTurn_state_ne_stopped _ _ awake, ?_⟩
    exact (pollTurn_indices _ _ _).2.trans sameLast

/-- What a turn keeps is kept by the rounds of the poll loop. -/
theorem pollRounds_keep
    (turned : ∀ worker polls outcome i, property worker polls → worker.state ≠ .stopped → i <
        worker.lastGraph → property (pollTurn outcome i worker).1 (polls ++ (pollTurn outcome i
        worker).2)) (outcomes : Nat → Nat → Option (BitVec 64)) (polls : List PollEvent)
    (holds : property worker polls) (notStopped : worker.state ≠ .stopped) (rounds : Nat) :
    property (pollRounds outcomes worker rounds).1
        (polls ++ (pollRounds outcomes worker rounds).2) ∧
      (pollRounds outcomes worker rounds).1.state ≠ .stopped := by
  induction rounds with
  | zero =>
    refine ⟨?_, notStopped⟩
    simpa [pollRounds] using holds
  | succ rounds ih =>
    obtain ⟨before, awake⟩ := ih
    obtain ⟨after, stillAwake, _⟩ :=
      pollTurns_keep property turned (outcomes rounds) _ before awake (Nat.le_refl _)
    simp only [pollRounds, pollRound]
    rw [← append_assoc]
    exact ⟨after, stillAwake⟩

/-- Polling hands out no index. -/
theorem pollRounds_indices (outcomes : Nat → Nat → Option (BitVec 64))
    (notStopped : worker.state ≠ .stopped) (rounds : Nat) :
    (pollRounds outcomes worker rounds).1.freeGraph = worker.freeGraph ∧
      (pollRounds outcomes worker rounds).1.lastGraph = worker.lastGraph := by
  let sameIndices (left : Worker) (_ : List PollEvent) : Prop :=
    left.freeGraph = worker.freeGraph ∧ left.lastGraph = worker.lastGraph
  have turned (left : Worker) (polls : List PollEvent) (outcome : Option (BitVec 64)) (i : Nat)
      (same : sameIndices left polls) (_ : left.state ≠ .stopped) (_ : i < left.lastGraph) :
      sameIndices (pollTurn outcome i left).1 (polls ++ (pollTurn outcome i left).2) := by
    obtain ⟨sameFree, sameLast⟩ := pollTurn_indices outcome i left
    exact ⟨sameFree.trans same.1, sameLast.trans same.2⟩
  have atEntry : sameIndices worker [] := ⟨rfl, rfl⟩
  exact (pollRounds_keep sameIndices turned outcomes [] atEntry notStopped rounds).1

/-- A round polls the graphs that run at their turn, each of them once. -/
theorem pollTurns_polled (outcomes : Nat → Option (BitVec 64)) (worker : Worker) (count : Nat) :
    (pollTurns outcomes worker count).2.map (·.index) = (List.range count).filter (fun i =>
        (pollTurns outcomes worker i).1.started i = .running) := by
  induction count with
  | zero => rfl
  | succ count ih =>
    rw [range_succ, filter_append, ← ih]
    simp only [pollTurns, map_append, append_cancel_left_eq]
    by_cases running : (pollTurns outcomes worker count).1.started count = .running
    · cases isOutcome : outcomes count <;> simp [pollTurn, running]
    · simp [pollTurn, running]

/-- The poll loop runs its rounds one after the other. -/
theorem pollRounds_rounds (outcomes : Nat → Nat → Option (BitVec 64)) (worker : Worker)
    (rounds : Nat) :
    (pollRounds outcomes worker rounds).2 = (List.range rounds).flatMap (fun round =>
        (pollRound (outcomes round) (pollRounds outcomes worker round).1).2) := by
  induction rounds with
  | zero => rfl
  | succ rounds ih =>
    rw [range_succ, flatMap_append, ← ih]
    simp [pollRounds]

end Turns

section Histories

variable {κ : Type} [DecidableEq κ]
variable {guard : ThreadWorld κ → ThreadLabel κ → Prop}
variable {property : Worker → List ThreadEvent → Prop}

/--
What executing an allowed operation and the turn of a graph keep holds of the
worker and its history in every run.
-/
theorem history_of_reachable {allowed : Worker → List ThreadEvent → ThreadOp → Prop}
    (isAllowed : ∀ world queuePos, guard world .switch → world.control = .atOp queuePos → allowed
        world.worker world.log (world.client.queue queuePos))
    (atStart : ∀ graphs started, property (Worker.start graphs started) [])
    (executed : ∀ worker log cur answer left ticket, property worker log → allowed worker log cur →
        worker.executes cur = true → Effect worker cur answer left → property left (log ++
        [.executed ticket worker cur]))
    (turned : ∀ worker log outcome i, property worker log → worker.state ≠ .stopped → i <
        worker.lastGraph → property (pollTurn outcome i worker).1 (log ++ (pollTurn outcome i
        worker).2.map .polled))
    {world : ThreadWorld κ} (reachable : ((threadSystem κ).guarded guard).Reachable world) :
    property world.worker world.log := by
  refine threadSystem_invariant atStart ?_ reachable
  intro before label after holds guarded move
  rcases move.worker_cases with
    ⟨sameWorker, sameLog⟩ |
    ⟨queuePos, answer, isSwitch, isAt, executes, effect, _, isLog⟩ |
    ⟨outcomes, notStopped, isWorker, isLog⟩
  · rw [sameWorker, sameLog]
    exact holds
  · rw [isLog]
    exact executed _ _ _ _ _ _ holds (isAllowed _ _ (isSwitch ▸ guarded) isAt) executes effect
  · rw [isWorker, isLog]
    let inLoop (worker : Worker) (polls : List PollEvent) : Prop :=
      property worker (before.log ++ polls.map .polled)
    have atEntry : inLoop before.worker [] := by simpa [inLoop] using holds
    have turns (worker : Worker) (polls : List PollEvent) (outcome : Option (BitVec 64)) (i : Nat)
        (kept : inLoop worker polls) (awake : worker.state ≠ .stopped)
        (inRange : i < worker.lastGraph) : inLoop (pollTurn outcome i worker).1
          (polls ++ (pollTurn outcome i worker).2) := by
      simp only [inLoop, map_append, ← append_assoc]
      exact turned worker _ outcome i kept awake inRange
    exact (pollRounds_keep inLoop turns outcomes [] atEntry notStopped pollLoops).1

end Histories

section States

/-- No graph of the worker is broken. -/
def Worker.Healthy (worker : Worker) : Prop :=
  ∀ i < worker.lastGraph, worker.started i ≠ .broken

/-- The index that the next graph gets. -/
def Worker.nextIndex (worker : Worker) : Option Nat :=
  if (worker.freeGraph.top (-1)).toInt = -1 then
    if worker.lastGraph = pgStackBlockSize then none else some worker.lastGraph
  else
    some (worker.freeGraph.top (-1)).toInt.toNat

theorem Worker.nextIndex_fresh {worker : Worker} (empty : (worker.freeGraph.top (-1)).toInt = -1)
    (notFull : worker.lastGraph ≠ pgStackBlockSize) : worker.nextIndex = some worker.lastGraph := by
  unfold Worker.nextIndex
  rw [if_pos empty, if_neg notFull]

theorem Worker.nextIndex_reused {worker : Worker} {id : Nat}
    (isId : (worker.freeGraph.top (-1)).toInt = id) : worker.nextIndex = some id := by
  have notEmpty : (id : Int) ≠ -1 := by omega
  unfold Worker.nextIndex
  rw [isId, if_neg notEmpty, Int.toNat_natCast]

/-- Does an operation start the graph with an index? -/
def ThreadEvent.Restarts (i : Nat) : ThreadEvent → Prop
  | .executed _ worker cur =>
    cur.op = .run ∨ (cur.op = .forceStart ∧ cur.startId = i) ∨
      (cur.op = .addGraph ∧ worker.nextIndex = some i)
  | .polled _ => False

/-- What the states of the graphs say about the polls made so far. -/
structure PollsSound (worker : Worker) (log : List ThreadEvent) : Prop where
  healthy : worker.state = .running → worker.Healthy
  awake : ∀ poll, .polled poll ∈ log → poll.state ≠ .stopped
  /-- A graph that failed and runs was started since. -/
  restarted : ∀ (m : Nat) (poll : PollEvent), log[m]? = some (.polled poll) → poll.failed = true →
      worker.started poll.index = .running → ∃ (k : Nat) (event : ThreadEvent),
        m < k ∧ log[k]? = some event ∧ event.Restarts poll.index
  /-- Between a failure and the next poll the graph was started. -/
  between : ∀ (m n : Nat) (poll next : PollEvent), m < n → log[m]? = some (.polled poll) →
      log[n]? = some (.polled next) → poll.failed = true → next.index = poll.index →
      ∃ (k : Nat) (event : ThreadEvent),
        m < k ∧ k < n ∧ log[k]? = some event ∧ event.Restarts poll.index

variable {worker left : Worker} {cur answer : ThreadOp}
variable {log : List ThreadEvent}

/-- The entries of a history that grew by one. -/
theorem getElem?_concat {α : Type} {entries : List α} {entry last : α} {n : Nat} :
    (entries ++ [last])[n]? = some entry ↔
      entries[n]? = some entry ∨ n = entries.length ∧ entry = last := by
  rcases Nat.lt_trichotomy n entries.length with below | same | above
  · rw [List.getElem?_append_left below]
    simp [Nat.ne_of_lt below]
  · subst same
    simp [eq_comm]
  · have outside : (entries ++ [last]).length ≤ n := by
      rw [length_append, length_singleton]
      exact above
    rw [List.getElem?_eq_none outside, List.getElem?_eq_none (Nat.le_of_lt above)]
    simp [Nat.ne_of_gt above]

/-- An operation that leaves a graph running found it so or starts it. -/
theorem Effect.restarts (ticket : Nat) {i : Nat} (effect : Effect worker cur answer left)
    (running : left.started i = .running) :
    worker.started i = .running ∨ (ThreadEvent.executed ticket worker cur).Restarts i := by
  cases effect with
  | idle _ | state _ | stop _ | popError _ _ | addFails _ _ _ => exact .inl running
  | rmGraph _ _ =>
    rcases update_eq_cases running with ⟨_, isStopped⟩ | ⟨_, same⟩
    · cases isStopped
    · exact .inl same
  | addNext isAdd empty notFull =>
    rcases update_eq_cases running with ⟨here, _⟩ | ⟨_, same⟩
    · rw [here]
      exact .inr (.inr (.inr ⟨isAdd, Worker.nextIndex_fresh empty notFull⟩))
    · exact .inl same
  | addReused isAdd isId _ =>
    rcases update_eq_cases running with ⟨here, _⟩ | ⟨_, same⟩
    · rw [here]
      exact .inr (.inr (.inr ⟨isAdd, Worker.nextIndex_reused isId⟩))
    · exact .inl same
  | forceStart isStart isIndex _ =>
    rcases update_eq_cases running with ⟨here, _⟩ | ⟨_, same⟩
    · refine .inr (.inr (.inl ⟨isStart, ?_⟩))
      rw [here, Int.toNat_of_nonneg isIndex.1]
    · exact .inl same
  | run isRun _ => exact .inr (.inl isRun)

/-- An operation that leaves a thread running leaves it healthy. -/
theorem Effect.healthy (effect : Effect worker cur answer left)
    (healthy : worker.state = .running → worker.Healthy) (running : left.state = .running) :
    left.Healthy := by
  intro i inRange isBroken
  cases effect with
  | idle _ | state _ => exact healthy running i inRange isBroken
  | stop _ => cases running
  | popError _ _ | addFails _ _ _ => exact healthy running i inRange isBroken
  | rmGraph _ _ =>
    rcases update_eq_cases isBroken with ⟨_, isState⟩ | ⟨_, same⟩
    · cases isState
    · exact healthy running i inRange same
  | addNext _ _ _ =>
    rcases update_eq_cases isBroken with ⟨_, isState⟩ | ⟨elsewhere, same⟩
    · cases isState
    · exact healthy running i (Nat.lt_of_le_of_ne (Nat.le_of_lt_succ inRange) elsewhere) same
  | addReused _ _ _ =>
    rcases update_eq_cases isBroken with ⟨_, isState⟩ | ⟨_, same⟩
    · cases isState
    · exact healthy running i inRange same
  | forceStart _ _ state =>
    rcases state with ⟨_, noneBroken⟩ | sameState
    · exact noneBroken i inRange isBroken
    · rcases update_eq_cases isBroken with ⟨_, isState⟩ | ⟨_, same⟩
      · cases isState
      · exact healthy (sameState.symm.trans running) i inRange same
  | run _ _ =>
    simp only at isBroken
    split at isBroken
    · cases isBroken
    · rename_i notBroken
      exact notBroken ⟨inRange, isBroken⟩

/-- What a history with one more entry has to show. -/
theorem PollsSound.extend {event : ThreadEvent} (sound : PollsSound worker log)
    (healthy : left.state = .running → left.Healthy)
    (restarts : ∀ i, left.started i = .running → worker.started i = .running ∨ event.Restarts i)
    (polled : ∀ poll, event = .polled poll → worker.state ≠ .stopped ∧ poll.state = worker.state ∧
        worker.started poll.index = .running ∧ (poll.failed = true → left.started poll.index ≠
        .running)) : PollsSound left (log ++ [event]) := by
  refine ⟨healthy, ?_, ?_, ?_⟩
  · intro poll member
    rcases mem_append.mp member with old | new
    · exact sound.awake poll old
    · obtain ⟨notStopped, sameState, _⟩ := polled poll (mem_singleton.mp new).symm
      exact sameState ▸ notStopped
  · intro m poll isPoll failed running
    rcases getElem?_concat.mp isPoll with old | ⟨_, new⟩
    · rcases restarts poll.index running with wasRunning | isRestart
      · obtain ⟨k, other, later, isOther, isRestart⟩ := sound.restarted m poll old failed wasRunning
        exact ⟨k, other, later, getElem?_concat.mpr (.inl isOther), isRestart⟩
      · obtain ⟨below, _⟩ := List.getElem?_eq_some_iff.mp old
        exact ⟨log.length, event, below, getElem?_concat.mpr (.inr ⟨rfl, rfl⟩), isRestart⟩
    · exact absurd running ((polled poll new.symm).2.2.2 failed)
  · intro m n poll next before isPoll isNext failed sameIndex
    have isOld : log[m]? = some (.polled poll) := by
      rcases getElem?_concat.mp isPoll with old | ⟨isLast, _⟩
      · exact old
      · obtain ⟨below, _⟩ := List.getElem?_eq_some_iff.mp isNext
        rw [length_append, length_singleton] at below
        omega
    -- the later poll is an old one or the new entry
    rcases getElem?_concat.mp isNext with old | ⟨isLast, new⟩
    · obtain ⟨k, other, low, high, isOther, isRestart⟩ :=
        sound.between m n poll next before isOld old failed sameIndex
      exact ⟨k, other, low, high, getElem?_concat.mpr (.inl isOther), isRestart⟩
    · have running := (polled next new.symm).2.2.1
      rw [sameIndex] at running
      obtain ⟨k, other, low, isOther, isRestart⟩ := sound.restarted m poll isOld failed running
      obtain ⟨below, _⟩ := List.getElem?_eq_some_iff.mp isOther
      exact ⟨k, other, low, isLast ▸ below, getElem?_concat.mpr (.inl isOther), isRestart⟩

/-- A turn keeps what the states say about the polls. -/
theorem PollsSound.turned (sound : PollsSound worker log) (notStopped : worker.state ≠ .stopped)
    (outcome : Option (BitVec 64)) (i : Nat) :
    PollsSound (pollTurn outcome i worker).1
      (log ++ (pollTurn outcome i worker).2.map .polled) := by
  unfold pollTurn
  split
  · simpa using sound
  · rename_i isRunning
    have running : worker.started i = .running := not_not.mp isRunning
    cases outcome with
    | none =>
      refine sound.extend sound.healthy (fun _ => .inl) ?_
      rintro poll isPoll
      cases isPoll
      exact ⟨notStopped, rfl, running, by simp⟩
    | some error =>
      refine sound.extend (fun isRun => by cases isRun) ?_ ?_
      · intro other otherRunning
        rcases update_eq_cases otherRunning with ⟨_, isState⟩ | ⟨_, same⟩
        · cases isState
        · exact .inl same
      · rintro poll isPoll
        cases isPoll
        refine ⟨notStopped, rfl, running, fun _ stillRunning => ?_⟩
        rcases update_eq_cases stillRunning with
          ⟨_, isState⟩ | ⟨elsewhere, _⟩
        · cases isState
        · exact elsewhere rfl

end States

section Runs

variable {κ : Type} [DecidableEq κ]
variable {world : ThreadWorld κ}

theorem pollsSound_of_reachable (reachable : (threadSystem κ).Reachable world) :
    PollsSound world.worker world.log := by
  let anyStep (_ : ThreadWorld κ) (_ : ThreadLabel κ) : Prop := True
  let anyOp (_ : Worker) (_ : List ThreadEvent) (_ : ThreadOp) : Prop := True
  have guarded : ((threadSystem κ).guarded anyStep).Reachable world :=
    reachable.to_guarded (fun _ _ => trivial)
  have isAllowed (world : ThreadWorld κ) (queuePos : Nat) (_ : anyStep world .switch)
      (_ : world.control = .atOp queuePos) :
      anyOp world.worker world.log (world.client.queue queuePos) :=
    trivial
  refine history_of_reachable isAllowed ?_ ?_ ?_ guarded
  · intro graphs started
    exact
      { healthy := fun running => by cases running
        awake := fun _ member => absurd member not_mem_nil
        restarted := fun _ _ isPoll => by simp at isPoll
        between := fun _ _ _ _ _ isPoll => by simp at isPoll }
  · intro worker log cur answer left ticket sound _ _ effect
    exact sound.extend (effect.healthy sound.healthy)
      (fun _ => effect.restarts ticket) (fun _ isPoll => by cases isPoll)
  · intro worker log outcome i sound notStopped _
    exact sound.turned notStopped outcome i

/--
A running thread has no broken graph, also between two turns of the poll loop;
a stopped one polls none; a graph that failed is started again before it is
polled again; and each round polls just the graphs that run at their turn,
each of them once.
-/
theorem thread_run_states (reachable : (threadSystem κ).Reachable world) :
    (world.worker.state = .running → world.worker.Healthy) ∧
      (∀ poll, .polled poll ∈ world.log → poll.state ≠ .stopped) ∧
      (∀ (m n : Nat) (poll next : PollEvent), m < n → world.log[m]? = some (.polled poll) →
        world.log[n]? = some (.polled next) →
        poll.failed = true →
        next.index = poll.index →
        ∃ (k : Nat) (event : ThreadEvent), m < k ∧ k < n ∧ world.log[k]? = some event ∧
            event.Restarts poll.index) ∧
      ∀ outcomes after, world.step (.poll outcomes) = some after → world.worker.state ≠ .stopped →
        after.log = world.log ++ ((List.range 32).flatMap (fun round =>
                (pollRound (outcomes round) (pollRounds outcomes world.worker round).1).2)).map
                .polled ∧
          ∀ round, let start := (pollRounds outcomes world.worker round).1
            let atTurn := fun i => (pollTurns (outcomes round) start i).1
            (pollRound (outcomes round) start).2.map (·.index) =
                (List.range start.lastGraph).filter (fun i => (atTurn i).started i = .running) ∧
              ∀ i ≤ start.lastGraph, (atTurn i).state = .running → (atTurn i).Healthy := by
  have sound := pollsSound_of_reachable reachable
  refine ⟨sound.healthy, sound.awake, sound.between, ?_⟩
  intro outcomes after stepped notStopped
  have isLog : after.log = world.log ++
          (pollRounds outcomes world.worker pollLoops).2.map .polled := by
    simp only [ThreadWorld.step, ThreadWorld.poll] at stepped
    split at stepped
    · rw [if_neg notStopped, Option.some.injEq] at stepped
      exact stepped ▸ rfl
    · cases stepped
  refine ⟨?_, fun round => ⟨pollTurns_polled _ _ _, ?_⟩⟩
  · rw [isLog, pollRounds_rounds]
    unfold pollLoops
    rfl
  · intro i inRange
    let inLoop (worker : Worker) (polls : List PollEvent) : Prop :=
      PollsSound worker (world.log ++ polls.map .polled)
    have turned (worker : Worker) (polls : List PollEvent) (outcome : Option (BitVec 64)) (i : Nat)
        (kept : inLoop worker polls) (awake : worker.state ≠ .stopped) (_ : i < worker.lastGraph) :
        inLoop (pollTurn outcome i worker).1 (polls ++ (pollTurn outcome i worker).2) := by
      simp only [inLoop, map_append, ← append_assoc]
      exact kept.turned awake outcome i
    have atEntry : inLoop world.worker [] := by simpa [inLoop] using sound
    obtain ⟨atStart, awake⟩ := pollRounds_keep inLoop turned outcomes [] atEntry notStopped round
    exact (pollTurns_keep inLoop turned (outcomes round) _ atStart awake inRange).1.healthy

end Runs

/-- A caller adds a graph and runs the thread. -/
def runGraph : List (ThreadLabel Unit) :=
  servedCall () (.addGraph 1#64) ++ [.begin () .run, .enqueue (), .tryLock, .switch]

/-- A thread that runs one graph polls it once in its first round. -/
theorem thread_run_states_graph :
    ∃ world : ThreadWorld Unit,
      (threadSystem Unit).Reachable world ∧ world.worker.state = .running ∧ world.worker.Healthy ∧
        ∀ outcomes : Nat → Option (BitVec 64),
          (pollRound outcomes world.worker).2.map (·.index) = [0] := by
  have started : (threadSystem Unit).Reachable idleThread := .initial ⟨_, _, rfl⟩
  obtain ⟨world, ran, running, isLast, isPolling, isRunning⟩ : ∃ world,
        idleThread.after runGraph = some world ∧ world.worker.state = .running ∧
          world.worker.lastGraph = 1 ∧ world.control = .polling ∧
          world.worker.started 0 = .running :=
    ⟨_, rfl, rfl, rfl, rfl, rfl⟩
  have reachable := reachable_after started ran
  obtain ⟨healthy, _, _, polls⟩ := thread_run_states reachable
  refine ⟨world, reachable, running, healthy running, fun outcomes => ?_⟩
  have notStopped : world.worker.state ≠ .stopped := by simp [running]
  have steps : ∃ after, world.step (.poll fun _ => outcomes) = some after := by
    simp only [ThreadWorld.step, ThreadWorld.poll, isPolling, if_neg notStopped]
    exact ⟨_, rfl⟩
  obtain ⟨after, stepped⟩ := steps
  obtain ⟨polled, _⟩ := (polls _ after stepped notStopped).2 0
  refine polled.trans ?_
  show (List.range world.worker.lastGraph).filter (fun i =>
      (pollTurns outcomes world.worker i).1.started i = .running) = [0]
  simp [isLast, pollTurns, isRunning]

end PacketGraph
