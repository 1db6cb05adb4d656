import PacketGraph.Thread.Answers

namespace PacketGraph

open List TransitionSystem

/-!
# Operations of one caller, in the order they were issued

The worker walks the queue from its end and never looks at the first slot
while there are others, so two operations that are in the queue together are
executed in the wrong order.  If each operation of a caller is enqueued only
once the earlier ones were executed, they take effect in order.
-/

variable {κ : Type} {world after : ThreadWorld κ} {label : ThreadLabel κ}

/-- Operations are enqueued when no other one is pending. -/
def EnqueuesAlone (world : ThreadWorld κ) (label : ThreadLabel κ) : Prop :=
  match label with
  | .enqueue _ => ∀ slot < world.client.queueSize, (world.client.queue slot).pending = false
  | _ => True

instance (world : ThreadWorld κ) (label : ThreadLabel κ) :
    Decidable (EnqueuesAlone world label) := by
  cases label <;> unfold EnqueuesAlone <;> infer_instance

/-- The operations that were executed are those that were issued. -/
def Genuine (world : ThreadWorld κ) : Prop :=
  ∀ ticket worker cur, .executed ticket worker cur ∈ world.log → ∃ who call,
      world.issued[ticket]? = some (who, call) ∧ Carries cur call

/-- Every start of the thread was followed by a stop. -/
def StoppedSince (log : List ThreadEvent) : Prop :=
  ∀ earlier ticket worker cur later, log = earlier ++ .executed ticket worker cur :: later →
    cur.op = .run ∨ cur.op = .forceStart → ∃ stopTicket stopWorker stopCur,
      .executed stopTicket stopWorker stopCur ∈ later ∧ stopCur.op = .stop

/-- Operations took effect in the order of their numbers. -/
structure InOrder (world : ThreadWorld κ) : Prop where
  order : executedTickets world.log = List.range (executedTickets world.log).length
  close : world.issued.length ≤ (executedTickets world.log).length + 1

section Log

variable {log : List ThreadEvent} {ticket : Nat}

theorem mem_executedTickets :
    ticket ∈ executedTickets log ↔ ∃ worker cur, .executed ticket worker cur ∈ log := by
  unfold executedTickets
  rw [mem_filterMap]
  constructor
  · rintro ⟨event, member, isTicket⟩
    cases event with
    | executed other worker cur =>
      simp only [Option.some.injEq] at isTicket
      exact ⟨worker, cur, isTicket ▸ member⟩
    | polled poll => exact absurd isTicket (by simp)
  · rintro ⟨worker, cur, member⟩
    exact ⟨_, member, rfl⟩

/-- A stop at the end of the log, or nothing about the state. -/
theorem StoppedSince.of_append {more : List ThreadEvent}
    (noStop : ∀ ticket worker cur, .executed ticket worker cur ∈ more → cur.op ≠ .stop)
    (since : StoppedSince (log ++ more)) : StoppedSince log := by
  intro earlier ticket worker cur later isLog starts
  obtain ⟨stopTicket, stopWorker, stopCur, member, isStop⟩ :=
    since earlier ticket worker cur (later ++ more)
      (by rw [isLog, append_assoc, cons_append]) starts
  rcases mem_append.mp member with inLater | inMore
  · exact ⟨stopTicket, stopWorker, stopCur, inLater, isStop⟩
  · exact absurd isStop (noStop _ _ _ inMore)

variable {worker : Worker} {cur : ThreadOp}

/-- A start at the end of the log is not followed by a stop. -/
theorem not_stoppedSince_start (starts : cur.op = .run ∨ cur.op = .forceStart) :
    ¬ StoppedSince (log ++ [.executed ticket worker cur]) := by
  intro since
  obtain ⟨_, _, _, member, _⟩ := since log ticket worker cur [] rfl starts
  exact absurd member not_mem_nil

/-- The history of callers that enqueue alone. -/
structure OrderedHistory (world : ThreadWorld κ) : Prop where
  queue : QueueSound world
  genuine : Genuine world
  inOrder : InOrder world
  stopped : StoppedSince world.log → world.worker.state = .stopped

/-- When an operation takes effect, exactly the earlier ones have. -/
theorem InOrder.earlier (inOrder : InOrder world) {earlier later : List ThreadEvent}
    (isLog : world.log = earlier ++ .executed ticket worker cur :: later) :
    executedTickets earlier = List.range ticket := by
  have order := inOrder.order
  have isTickets : executedTickets world.log =
        executedTickets earlier ++ ticket :: executedTickets later := by
    rw [isLog, executedTickets_append]
    rfl
  rw [isTickets] at order
  have isTicket : (executedTickets earlier).length = ticket := by
    have read := congrArg (fun list => list[(executedTickets earlier).length]?) order
    simp only [getElem?_append_right (Nat.le_refl _), Nat.sub_self, getElem?_cons_zero] at read
    obtain ⟨_, isValue⟩ := List.getElem?_eq_some_iff.mp read.symm
    rw [getElem_range] at isValue
    exact isValue
  have taken := congrArg (List.take (executedTickets earlier).length) order
  rw [take_left, take_range, length_append] at taken
  rw [taken, isTicket]
  exact congrArg List.range (Nat.min_eq_left (Nat.le_add_right _ _))

/-- A stop that was executed is not undone by anything issued before it. -/
theorem OrderedHistory.stoppedSince (history : OrderedHistory world) {who : κ}
    (executed : ticket ∈ executedTickets world.log)
    (isStop : world.issued[ticket]? = some (who, .stop))
    (noStart : ∀ next other call, ticket < next → world.issued[next]? = some (other, call) → call.op
        ≠ .run ∧ call.op ≠ .forceStart) : StoppedSince world.log := by
  intro earlier startTicket worker cur later isLog starts
  obtain ⟨other, call, isIssued, carries⟩ :=
    history.genuine startTicket worker cur (isLog ▸ mem_append_right _ mem_cons_self)
  have isEarlier := history.inOrder.earlier isLog
  -- the start was issued before the stop, so it was executed before it
  have before : startTicket < ticket := by
    rcases Nat.lt_trichotomy startTicket ticket with less | same | greater
    · exact less
    · rw [same, isStop, Option.some.injEq, Prod.mk.injEq] at isIssued
      rw [carries.1, ← isIssued.2] at starts
      simp [ThreadCall.op] at starts
    · obtain ⟨notRun, notForce⟩ := noStart _ _ _ greater isIssued
      rw [carries.1] at starts
      rcases starts with isRun | isForce
      · exact absurd isRun notRun
      · exact absurd isForce notForce
  have inLater : ticket ∈ executedTickets later := by
    rw [isLog, executedTickets_append, isEarlier] at executed
    rcases mem_append.mp executed with inEarlier | inRest
    · exact absurd (mem_range.mp inEarlier) (Nat.lt_asymm before)
    · rcases mem_cons.mp inRest with same | inLater
      · exact absurd same (Nat.ne_of_gt before)
      · exact inLater
  obtain ⟨stopWorker, stopCur, member⟩ := mem_executedTickets.mp inLater
  obtain ⟨_, stopCall, stopIssued, stopCarries⟩ :=
    history.genuine ticket stopWorker stopCur
      (isLog ▸ mem_append_right _ (mem_cons_of_mem _ member))
  rw [isStop, Option.some.injEq, Prod.mk.injEq] at stopIssued
  refine ⟨ticket, stopWorker, stopCur, member, ?_⟩
  rw [stopCarries.1, ← stopIssued.2]
  rfl

/-- The state of the thread changes at starts and stops only. -/
theorem Effect.state_eq {left : Worker} {answer : ThreadOp}
    (effect : Effect worker cur answer left) (executes : worker.executes cur = true) :
    (cur.op = .run ∨ cur.op = .forceStart) ∨ cur.op = .stop ∧ left.state = .stopped ∨
      cur.op ≠ .stop ∧ left.state = worker.state := by
  cases effect with
  | idle idle => exact absurd executes (by simp [idle])
  | state isOp => exact .inr (.inr ⟨by simp [isOp], rfl⟩)
  | stop isOp => exact .inr (.inl ⟨isOp, rfl⟩)
  | popError isOp _ | rmGraph isOp _ | addFails isOp _ _ | addNext isOp _ _ | addReused isOp _ _ =>
    exact .inr (.inr ⟨by simp [isOp], rfl⟩)
  | forceStart isOp _ _ => exact .inl (.inr isOp)
  | run isOp _ => exact .inl (.inl isOp)

end Log

section Steps

variable [DecidableEq κ]

theorem Genuine.move (sound : QueueSound world) (genuine : Genuine world)
    (move : ThreadMove world label after) : Genuine after := by
  have older : ∀ ticket worker cur, .executed ticket worker cur ∈ world.log → ∃ who call,
          after.issued[ticket]? = some (who, call) ∧ Carries cur call := by
    intro ticket worker cur member
    obtain ⟨who, call, isIssued, carries⟩ := genuine ticket worker cur member
    obtain ⟨later, isLater⟩ := move.issued_prefix
    obtain ⟨inRange, _⟩ := List.getElem?_eq_some_iff.mp isIssued
    refine ⟨who, call, ?_, carries⟩
    rw [← isLater, getElem?_append_left inRange]
    exact isIssued
  intro ticket worker cur member
  rcases move.worker_cases with
    ⟨_, sameLog⟩ |
    ⟨queuePos, answer, _, isAt, executes, _, sameIssued, isLog⟩ |
    ⟨outcomes, _, _, isLog⟩
  · rw [sameLog] at member
    exact older ticket worker cur member
  · rw [isLog, mem_append, mem_singleton] at member
    rcases member with before | here
    · exact older ticket worker cur before
    · simp only [ThreadEvent.executed.injEq] at here
      obtain ⟨rfl, rfl, rfl⟩ := here
      have pending := pending_of_executes executes
      obtain ⟨who, call, isIssued, carries⟩ :=
        sound.carries_of_pending (sound.walking isAt).2 pending
      exact ⟨who, call, sameIssued ▸ isIssued, carries⟩
  · rw [isLog, mem_append] at member
    rcases member with before | here
    · exact older ticket worker cur before
    · simp only [mem_map] at here
      obtain ⟨poll, _, isPoll⟩ := here
      exact absurd isPoll (by simp)

/-- A thread that was stopped since it was last started is stopped. -/
theorem stopped_move (stopped : StoppedSince world.log → world.worker.state = .stopped)
    (move : ThreadMove world label after) :
    StoppedSince after.log → after.worker.state = .stopped := by
  rcases move.worker_cases with
    ⟨sameWorker, sameLog⟩ |
    ⟨queuePos, answer, _, _, executes, effect, _, isLog⟩ |
    ⟨outcomes, notStopped, _, isLog⟩
  · rw [sameWorker, sameLog]
    exact stopped
  · intro since
    rw [isLog] at since
    rcases effect.state_eq executes with starts | ⟨_, isStopped⟩ | ⟨notStop, sameState⟩
    · exact absurd since (not_stoppedSince_start starts)
    · exact isStopped
    · rw [sameState]
      refine stopped (since.of_append ?_)
      intro ticket worker cur member
      simp only [mem_singleton, ThreadEvent.executed.injEq] at member
      exact member.2.2 ▸ notStop
  · intro since
    rw [isLog] at since
    refine absurd (stopped (since.of_append ?_)) notStopped
    intro ticket worker cur member
    simp only [mem_map] at member
    obtain ⟨poll, _, isPoll⟩ := member
    exact absurd isPoll (by simp)

theorem InOrder.move (sound : QueueSound world) (inOrder : InOrder world)
    (alone : EnqueuesAlone world label) (move : ThreadMove world label after) : InOrder after := by
  rcases move.issued_cases with sameIssued | ⟨who, call, rfl, free, isEntering, rfl⟩
  · rcases move.worker_cases with
      ⟨_, sameLog⟩ |
      ⟨queuePos, answer, _, isAt, executes, _, _, isLog⟩ |
      ⟨outcomes, _, _, isLog⟩
    · exact ⟨sameLog ▸ inOrder.order, by
        rw [sameLog, sameIssued]
        exact inOrder.close⟩
    · -- the only operation that may be left is the last one issued
      have below := (sound.walking isAt).2
      have notYet := sound.fresh queuePos below (pending_of_executes executes)
      rw [inOrder.order, mem_range] at notYet
      have isNext : world.tickets queuePos = (executedTickets world.log).length :=
        Nat.le_antisymm (Nat.le_of_lt_succ (Nat.lt_of_lt_of_le (sound.numbered queuePos below)
              inOrder.close)) (Nat.le_of_not_lt notYet)
      have isTickets : executedTickets after.log = executedTickets world.log ++
              [(executedTickets world.log).length] := by
        rw [isLog, executedTickets_append, ← isNext]
        rfl
      refine ⟨?_, ?_⟩
      · rw [isTickets, length_append, length_singleton, range_succ, ← inOrder.order]
      · rw [isTickets, sameIssued, length_append, length_singleton]
        exact Nat.le_succ_of_le inOrder.close
    · have sameTickets : executedTickets after.log = executedTickets world.log := by
        rw [isLog]
        exact executedTickets_polled _ _
      exact ⟨by rw [sameTickets]; exact inOrder.order, by
        rw [sameTickets, sameIssued]
        exact inOrder.close⟩
  · refine ⟨inOrder.order, ?_⟩
    have long : world.issued.length ≤ (executedTickets world.log).length := by
      by_contra short
      have next := sound.all_executed alone (Nat.lt_of_not_le short)
      rw [inOrder.order, length_range, mem_range] at next
      exact absurd next (Nat.lt_irrefl _)
    have issuedLength : (world.entered who call).issued.length = world.issued.length + 1 := by
      simp [ThreadWorld.entered]
    rw [issuedLength]
    exact Nat.succ_le_succ long

theorem orderedHistory_of_reachable
    (reachable : ((threadSystem κ).guarded EnqueuesAlone).Reachable world) :
    OrderedHistory world := by
  refine threadSystem_invariant ?_ ?_ reachable
  · intro graphs started
    exact
      { queue := queueSound_start graphs started
        genuine := fun _ _ _ member => absurd member not_mem_nil
        inOrder := ⟨rfl, Nat.zero_le _⟩
        stopped := fun _ => rfl }
  · intro before label after history alone move
    exact
      { queue := history.queue.move move
        genuine := history.genuine.move history.queue move
        inOrder := history.inOrder.move history.queue alone move
        stopped := stopped_move history.stopped move }

/--
If operations are enqueued alone, each takes effect when exactly those issued
before it have, `pg_thread_state` returns the state it finds then, and a
thread that was stopped stays so until it is started again.
-/
theorem thread_ops_in_order (reachable : ((threadSystem κ).guarded EnqueuesAlone).Reachable world) :
    (∀ earlier ticket worker cur later,
        world.log = earlier ++ .executed ticket worker cur :: later →
        executedTickets earlier = List.range ticket ∧ ∃ who call,
            world.issued[ticket]? = some (who, call) ∧ Carries cur call) ∧
      (∀ who ticket value, (who, ticket, value) ∈ world.returned →
        world.issued[ticket]? = some (who, .state) →
        ∃ earlier worker cur later, world.log = earlier ++ .executed ticket worker cur :: later ∧
            value = .state worker.state.toBits) ∧
      ∀ who ticket value, (who, ticket, value) ∈ world.returned →
        world.issued[ticket]? = some (who, .stop) →
        (∀ next other call, ticket < next → world.issued[next]? = some (other, call) →
          call.op ≠ .run ∧ call.op ≠ .forceStart) →
        world.worker.state = .stopped := by
  have history := orderedHistory_of_reachable reachable
  refine ⟨fun earlier ticket worker cur later isLog => ?_,
    fun who ticket value returned isState => ?_, fun who ticket value returned isStop noStart => ?_⟩
  · exact ⟨history.inOrder.earlier isLog, history.genuine ticket worker cur
      (isLog ▸ mem_append_right _ mem_cons_self)⟩
  · obtain ⟨call, answer, isIssued, answers, isValue⟩ :=
      history.queue.returned who ticket value returned
    rw [isState, Option.some.injEq, Prod.mk.injEq] at isIssued
    obtain ⟨worker, cur, left, member, carries, serves⟩ := answers
    obtain ⟨earlier, later, isLog⟩ := append_of_mem member
    refine ⟨earlier, worker, cur, later, isLog, ?_⟩
    rw [← isIssued.2] at carries isValue
    have isOp : cur.op = .state := carries.1
    rw [isValue]
    unfold Serves switchOp at serves
    rw [isOp] at serves
    rcases serves with served | served <;> cases served
    rfl
  · obtain ⟨call, answer, _, answers, _⟩ := history.queue.returned who ticket value returned
    obtain ⟨worker, cur, left, member, _⟩ := answers
    exact history.stopped (history.stoppedSince (mem_executedTickets.mpr ⟨worker, cur, member⟩)
        isStop noStart)

end Steps

/--
The thread is stopped after all four calls, and the state that the last one
returns is the one after the three others.
-/
theorem thread_ops_in_order_four :
    ∃ world : ThreadWorld Unit,
      ((threadSystem Unit).guarded EnqueuesAlone).Reachable world ∧
      world.issued = [((), .addGraph 1#64), ((), .run), ((), .stop), ((), .state)] ∧
      world.returned = [((), 0, .code 0), ((), 2, .code 0), ((), 3, .state 0#64)] ∧
      world.worker.state = .stopped ∧
      ∃ earlier worker cur later,
        world.log = earlier ++ .executed 3 worker cur :: later ∧
        executedTickets earlier = [0, 1, 2] ∧
        ThreadReturn.state 0#64 = .state worker.state.toBits := by
  have started : ((threadSystem Unit).guarded EnqueuesAlone).Reachable idleThread :=
    .initial ⟨_, _, rfl⟩
  have ran : (afterUnder ThreadWorld.step EnqueuesAlone idleThread fourCalls).any (fun world =>
        world.issued = [((), .addGraph 1#64), ((), .run), ((), .stop), ((), .state)] ∧
        world.returned = [((), 0, .code 0), ((), 2, .code 0), ((), 3, .state 0#64)]) = true := by
    decide +kernel
  obtain ⟨world, ran, isWorld⟩ := (Option.any_eq_true _ _).mp ran
  obtain ⟨isIssued, isReturned⟩ := of_decide_eq_true isWorld
  have reachable := started.afterUnder ran
  obtain ⟨inOrder, states, stops⟩ := thread_ops_in_order reachable
  refine ⟨world, reachable, isIssued, isReturned, ?_, ?_⟩
  · refine stops () 2 (.code 0) (by rw [isReturned]; decide) (by rw [isIssued]; rfl) ?_
    intro next other call later isNext
    rw [isIssued] at isNext
    obtain ⟨below, isCall⟩ := List.getElem?_eq_some_iff.mp isNext
    have below : next < 4 := below
    obtain rfl : next = 3 := by omega
    cases isCall
    decide
  · obtain ⟨earlier, worker, cur, later, isLog, isValue⟩ :=
      states () 3 (.state 0#64) (by rw [isReturned]; decide) (by rw [isIssued]; rfl)
    exact ⟨earlier, worker, cur, later, isLog, (inOrder _ _ _ _ _ isLog).1, isValue⟩

/--
A caller adds a graph, runs the thread, stops it and asks for its state.  The
worker first gets to the queue when the stop is in it.
-/
def lateRun : List (ThreadLabel Unit) :=
  servedCall () (.addGraph 1#64) ++ [.begin () .run, .enqueue ()] ++ servedCall () .stop ++
    [.begin () .state, .enqueue (), .tryLock, .switch, .switch,
      .poll fun _ _ => none, .tryGetAnswer (), .takeAnswer ()] ++ [.tryLock, .switch]

/-- A thread runs after it was stopped and its state was asked for. -/
theorem thread_runs_after_stop :
    ∃ world : ThreadWorld Unit, (threadSystem Unit).Reachable world ∧ world.issued =
          [((), .addGraph 1#64), ((), .run), ((), .stop), ((), .state)] ∧
        world.returned = [((), 0, .code 0), ((), 2, .code 0), ((), 3, .state 0#64)] ∧
        executedTickets world.log = [0, 2, 3, 1] ∧
        world.worker.state = .running := by
  have started : (threadSystem Unit).Reachable idleThread := .initial ⟨_, _, rfl⟩
  obtain ⟨world, ran, isIssued, isReturned, isExecuted, isRunning⟩ : ∃ world,
        idleThread.after lateRun = some world ∧ world.issued =
            [((), .addGraph 1#64), ((), .run), ((), .stop), ((), .state)] ∧ world.returned =
            [((), 0, .code 0), ((), 2, .code 0), ((), 3, .state 0#64)] ∧
          executedTickets world.log = [0, 2, 3, 1] ∧ world.worker.state = .running :=
    ⟨_, rfl, rfl, rfl, rfl, rfl⟩
  exact ⟨world, reachable_after started ran, isIssued, isReturned, isExecuted, isRunning⟩

end PacketGraph
