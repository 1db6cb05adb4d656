import PacketGraph.Thread.Moves

namespace PacketGraph

open Function List Option TransitionSystem

/-!
# Every operation is executed once and answered to its caller

A slot is given to one operation at a time.  A pending operation stays in its
slot until the worker executes it, and an answer until its caller takes it:
shrinking the queue drops empty slots at its end only.
-/

variable {κ : Type}

/-- The numbers of the operations executed, in the order of execution. -/
def executedTickets (log : List ThreadEvent) : List Nat :=
  log.filterMap (fun event => match event with
      | .executed ticket _ _ => some ticket
      | .polled _ => none)

/-- A slot holds the operation of a call as it was enqueued. -/
def Carries (cur : ThreadOp) (call : ThreadCall) : Prop :=
  cur.op = call.op ∧ ∃ old, cur.arg = call.arg old

/-- A slot holds what executing the operation of a call answered. -/
def Answered (log : List ThreadEvent) (ticket : Nat) (call : ThreadCall) (answer : ThreadOp)
    : Prop :=
  ∃ worker cur after, .executed ticket worker cur ∈ log ∧ Carries cur call ∧
      Serves worker cur answer after

/-- The slot of a caller holds its operation or the answer to it. -/
structure Seated (world : ThreadWorld κ) (who : κ) (call : ThreadCall) (slot ticket : Nat)
    : Prop where
  waits : call.waits = true
  below : slot < world.client.queueSize
  number : world.tickets slot = ticket
  own : world.issued[ticket]? = some (who, call)
  content : Carries (world.client.queue slot) call ∨ (world.client.queue slot).op = .answer ∧
        Answered world.log ticket call (world.client.queue slot)

/-- What holds of the queue of a thread in every run. -/
structure QueueSound (world : ThreadWorld κ) : Prop where
  numbered : ∀ slot < world.client.queueSize, world.tickets slot < world.issued.length
  distinct : ∀ slot < world.client.queueSize, ∀ other < world.client.queueSize,
      world.tickets slot = world.tickets other → slot = other
  fresh : ∀ slot < world.client.queueSize, (world.client.queue slot).pending = true →
      world.tickets slot ∉ executedTickets world.log
  once : (executedTickets world.log).Nodup
  executed : ∀ ticket ∈ executedTickets world.log, ticket < world.issued.length
  kept : ∀ ticket who call, world.issued[ticket]? = some (who, call) →
      ticket ∉ executedTickets world.log → ∃ slot < world.client.queueSize,
        world.tickets slot = ticket ∧ Carries (world.client.queue slot) call
  waiting : ∀ {who call slot ticket}, world.phase who = .waiting call slot ticket →
      Seated world who call slot ticket
  holding : ∀ {who call slot ticket}, world.phase who = .holding call slot ticket →
      Seated world who call slot ticket ∧ (world.client.queue slot).op = .answer ∧
        world.lock = some (.caller who)
  walking : ∀ {queuePos}, world.control = .atOp queuePos →
      world.lock = some .worker ∧ queuePos < world.client.queueSize
  returned : ∀ who ticket value, (who, ticket, value) ∈ world.returned → ∃ call answer,
        world.issued[ticket]? = some (who, call) ∧ Answered world.log ticket call answer ∧
          value = call.result answer
  quiet : world.asserted = false

section Facts

variable {world : ThreadWorld κ}

theorem executedTickets_append (log more : List ThreadEvent) :
    executedTickets (log ++ more) = executedTickets log ++ executedTickets more :=
  filterMap_append ..

theorem executedTickets_polled (log : List ThreadEvent) (polls : List PollEvent) :
    executedTickets (log ++ polls.map .polled) = executedTickets log := by
  rw [executedTickets_append]
  have noTicket : executedTickets (polls.map .polled) = [] := by
    unfold executedTickets
    rw [filterMap_map, filterMap_eq_nil_iff]
    exact fun _ _ => rfl
  rw [noTicket, append_nil]

variable {ticket : Nat} {call : ThreadCall} {answer : ThreadOp}

theorem Answered.append {log : List ThreadEvent} (answers : Answered log ticket call answer)
    (more : List ThreadEvent) : Answered (log ++ more) ticket call answer := by
  obtain ⟨worker, cur, after, member, carries, serves⟩ := answers
  exact ⟨worker, cur, after, mem_append_left more member, carries, serves⟩

variable {cur : ThreadOp}

section

variable (carries : Carries cur call)

include carries

theorem Carries.pending : cur.pending = true := by
  unfold ThreadOp.pending
  rw [carries.1]
  cases call <;> rfl

theorem Carries.ne_none : cur.op ≠ .none := by
  rw [carries.1]
  cases call <;> simp [ThreadCall.op]

theorem Carries.ne_answer : cur.op ≠ .answer := by
  rw [carries.1]
  cases call <;> simp [ThreadCall.op]

/-- The operation of a call that waits takes effect at once. -/
theorem Carries.executes_of_waits (waits : call.waits = true) (worker : Worker)
    : worker.executes cur = true := by
  unfold Worker.executes
  rw [carries.pending, carries.1]
  cases call <;> simp [ThreadCall.op, ThreadCall.waits] at waits ⊢

end

variable {worker : Worker}

/-- Executing the operation of a call that waits leaves its answer. -/
theorem Serves.answer_of_waits {after : Worker} (serves : Serves worker cur answer after)
    (carries : Carries cur call) (waits : call.waits = true) : answer.op = .answer := by
  rcases serves.slot_cases (carries.executes_of_waits waits worker) with
    ⟨fires, _⟩ | ⟨_, isAnswer⟩
  · rw [carries.1] at fires
    cases call <;> simp [ThreadCall.op, ThreadCall.waits] at fires waits
  · exact isAnswer

variable {who : κ} {slot : Nat}

theorem Seated.ne_none (seated : Seated world who call slot ticket) :
    (world.client.queue slot).op ≠ .none := by
  rcases seated.content with carries | ⟨isAnswer, _⟩
  · exact carries.ne_none
  · rw [isAnswer]
    simp

/-- Callers at one slot are one caller. -/
theorem Seated.unique {first second : κ} {firstCall secondCall : ThreadCall}
    {firstTicket secondTicket : Nat} (firstSeated : Seated world first firstCall slot firstTicket)
    (secondSeated : Seated world second secondCall slot secondTicket) : first = second := by
  have sameTicket : firstTicket = secondTicket := firstSeated.number.symm.trans secondSeated.number
  have same := firstSeated.own
  rw [sameTicket, secondSeated.own] at same
  exact (Prod.mk.inj (Option.some.inj same)).1.symm

/-- A caller stays seated while its slot and its number are left alone. -/
theorem Seated.transport {after : ThreadWorld κ} (seated : Seated world who call slot ticket)
    (below : slot < after.client.queueSize)
    (sameSlot : after.client.queue slot = world.client.queue slot)
    (sameNumber : after.tickets slot = world.tickets slot) (grown : world.issued <+: after.issued)
    (logged : world.log <+: after.log) : Seated after who call slot ticket := by
  obtain ⟨later, isLater⟩ := grown
  obtain ⟨more, isMore⟩ := logged
  refine ⟨seated.waits, below, sameNumber.trans seated.number, ?_, ?_⟩
  · obtain ⟨inRange, _⟩ := List.getElem?_eq_some_iff.mp seated.own
    rw [← isLater, getElem?_append_left inRange]
    exact seated.own
  · rw [sameSlot, ← isMore]
    rcases seated.content with carries | ⟨isAnswer, answers⟩
    · exact .inl carries
    · exact .inr ⟨isAnswer, answers.append more⟩

theorem QueueSound.not_holding (sound : QueueSound world)
    (free : ∀ who, world.lock ≠ some (.caller who))
    (holding : world.phase who = .holding call slot ticket) : False :=
  free who (sound.holding holding).2.2

variable {queuePos : Nat}

theorem QueueSound.not_walking (sound : QueueSound world) (free : world.lock ≠ some .worker)
    (walking : world.control = .atOp queuePos) : False :=
  free (sound.walking walking).1

variable {control : WorkerPhase} {lock : Option (LockHolder κ)}

/-- The queue, the log and the numbers stay sound when the worker moves on. -/
theorem QueueSound.moves (sound : QueueSound world)
    (locks : ∀ who, world.lock = some (.caller who) → lock = some (.caller who))
    (walking : ∀ queuePos, control = .atOp queuePos → lock = some .worker ∧ queuePos <
        world.client.queueSize) (worker : Worker) {log : List ThreadEvent}
    (logged : world.log <+: log) (sameTickets : executedTickets log = executedTickets world.log) :
    QueueSound { world with worker := worker, control := control, lock := lock, log := log } := by
  refine { sound with
      fresh := by simpa only [sameTickets] using sound.fresh
      once := by simpa only [sameTickets] using sound.once
      executed := by simpa only [sameTickets] using sound.executed
      kept := by simpa only [sameTickets] using sound.kept
      waiting := fun isWaiting => ?_
      holding := ?_
      walking := fun isWalking => walking _ isWalking
      returned := ?_ }
  · have seated := sound.waiting isWaiting
    exact seated.transport seated.below rfl rfl (prefix_refl _) logged
  · intro who call slot ticket isHolding
    obtain ⟨seated, isAnswer, locked⟩ := sound.holding isHolding
    exact ⟨seated.transport seated.below rfl rfl (prefix_refl _) logged, isAnswer, locks who locked⟩
  · intro who ticket value member
    obtain ⟨call, answer, isIssued, answers, isValue⟩ := sound.returned who ticket value member
    obtain ⟨more, rfl⟩ := logged
    exact ⟨call, answer, isIssued, answers.append _, isValue⟩

theorem queueSound_start (graphs : Nat → BitVec 64) (started : Nat → PgThreadState) :
    QueueSound (ThreadWorld.start graphs started : ThreadWorld κ) where
  numbered := fun _ below => absurd below (Nat.not_lt_zero _)
  distinct := fun _ below => absurd below (Nat.not_lt_zero _)
  fresh := fun _ below => absurd below (Nat.not_lt_zero _)
  once := nodup_nil
  executed := fun _ member => absurd member (not_mem_nil)
  kept := fun _ _ _ isIssued => absurd isIssued (by simp [ThreadWorld.start])
  waiting := fun isWaiting => absurd isWaiting (by simp [ThreadWorld.start])
  holding := fun isHolding => absurd isHolding (by simp [ThreadWorld.start])
  walking := fun isWalking => absurd isWalking (by simp [ThreadWorld.start])
  returned := fun _ _ _ member => absurd member (not_mem_nil)
  quiet := rfl

/-- Executing an operation keeps the queue sound. -/
theorem QueueSound.served (sound : QueueSound world) (isAt : world.control = .atOp queuePos)
    (serves : Serves world.worker (world.client.queue queuePos) answer worker)
    (walking : ∀ next, control = .atOp next → lock = some .worker ∧ next < world.client.queueSize) :
    QueueSound { world.served queuePos answer worker with
        control := control
        lock := lock } := by
  obtain ⟨locked, atBelow⟩ := sound.walking isAt
  have notHolding : ∀ {who call slot ticket}, world.phase who = .holding call slot ticket → False :=
    fun isHolding => sound.not_holding (fun _ => by simp [locked]) isHolding
  by_cases executes : world.worker.executes (world.client.queue queuePos) = true
  · -- the operation takes effect: it is logged and no longer pending
    have notPending := serves.not_pending executes
    have wasPending := pending_of_executes executes
    have isLog : (world.served queuePos answer worker).log = world.log ++
            [.executed (world.tickets queuePos) world.worker (world.client.queue queuePos)] := by
      simp only [ThreadWorld.served, ThreadWorld.logged, executes, ↓reduceIte]
    have isTickets : executedTickets (world.served queuePos answer worker).log =
          executedTickets world.log ++ [world.tickets queuePos] := by
      rw [isLog, executedTickets_append]
      rfl
    have notYet := sound.fresh queuePos atBelow wasPending
    refine { sound with
        fresh := ?_
        once := ?_
        executed := ?_
        kept := ?_
        waiting := ?_
        holding := fun isHolding => (notHolding isHolding).elim
        walking := fun isWalking => walking _ isWalking
        returned := ?_ }
    · intro slot below pending
      by_cases here : slot = queuePos
      · subst here
        rw [ThreadWorld.served_self, notPending] at pending
        exact absurd pending (by simp)
      · rw [ThreadWorld.served_of_ne _ _ here] at pending
        simp only [isTickets, mem_append, mem_singleton, not_or]
        exact ⟨sound.fresh slot below pending, fun same =>
          here (sound.distinct slot below queuePos atBelow same)⟩
    · simp only [isTickets]
      refine nodup_append.mpr
        ⟨sound.once, nodup_singleton _, fun ticket member other isOther same => ?_⟩
      rw [same, mem_singleton.mp isOther] at member
      exact notYet member
    · simp only [isTickets, mem_append, mem_singleton]
      rintro ticket (older | rfl)
      · exact sound.executed ticket older
      · exact sound.numbered queuePos atBelow
    · intro ticket who call isIssued notExecuted
      simp only [isTickets, mem_append, mem_singleton, not_or] at notExecuted
      obtain ⟨slot, below, isTicket, carries⟩ := sound.kept ticket who call isIssued notExecuted.1
      have elsewhere : slot ≠ queuePos := by
        rintro rfl
        exact notExecuted.2 isTicket.symm
      refine ⟨slot, below, isTicket, ?_⟩
      rw [ThreadWorld.served_of_ne _ _ elsewhere]
      exact carries
    · intro who call slot ticket isWaiting
      have seated := sound.waiting isWaiting
      by_cases here : slot = queuePos
      · subst here
        rcases seated.content with carries | ⟨isAnswer, _⟩
        · refine ⟨seated.waits, seated.below, seated.number, seated.own, .inr ?_⟩
          rw [ThreadWorld.served_self]
          refine ⟨serves.answer_of_waits carries seated.waits, ?_⟩
          simp only [isLog]
          exact ⟨_, _, worker, mem_append_right _ (by simp [seated.number]), carries, serves⟩
        · simp [ThreadOp.pending, isAnswer] at wasPending
      · exact seated.transport seated.below (ThreadWorld.served_of_ne answer worker here) rfl
          (prefix_refl _) ⟨_, isLog.symm⟩
    · intro who ticket value member
      obtain ⟨call, found, isIssued, answers, isValue⟩ := sound.returned who ticket value member
      refine ⟨call, found, isIssued, ?_, isValue⟩
      simp only [isLog]
      exact answers.append _
  · -- nothing happens to the queue or the log
    have idle := switchOp_of_not_executes (by simpa using executes)
    have unchanged : answer = world.client.queue queuePos := by
      rcases serves with served | served <;> rw [idle] at served <;> cases served
      rfl
    have moved := sound.moves (fun who isCaller => by simp [locked] at isCaller) walking worker
      (prefix_refl _) rfl
    simpa only [ThreadWorld.served, ThreadWorld.logged, executes, Bool.false_eq_true, ↓reduceIte,
      unchanged, update_eq_self] using moved

/-- A pending operation is the one that its number stands for. -/
theorem QueueSound.carries_of_pending (sound : QueueSound world)
    (below : slot < world.client.queueSize) (pending : (world.client.queue slot).pending = true) :
    ∃ who call, world.issued[world.tickets slot]? = some (who, call) ∧
        Carries (world.client.queue slot) call := by
  have inRange := sound.numbered slot below
  have isIssued := List.getElem?_eq_getElem inRange
  obtain ⟨other, otherBelow, isTicket, carries⟩ :=
    sound.kept _ _ _ isIssued (sound.fresh slot below pending)
  have same := sound.distinct other otherBelow slot below isTicket
  exact ⟨_, _, isIssued, same ▸ carries⟩

/-- All operations issued have been executed when none is pending. -/
theorem QueueSound.all_executed (sound : QueueSound world)
    (alone : ∀ slot < world.client.queueSize, (world.client.queue slot).pending = false)
    (inRange : ticket < world.issued.length) : ticket ∈ executedTickets world.log := by
  by_contra notExecuted
  obtain ⟨slot, below, _, carries⟩ :=
    sound.kept ticket _ _ (List.getElem?_eq_getElem inRange) notExecuted
  have pending := carries.pending
  rw [alone slot below] at pending
  exact absurd pending (by simp)

end Facts

section Steps

variable [DecidableEq κ] {world : ThreadWorld κ}

variable {who : κ}

theorem QueueSound.begins (sound : QueueSound world) (call : ThreadCall) :
    QueueSound { world with
        phase := update world.phase who (.entering call) } := by
  refine { sound with waiting := fun isWaiting => ?_, holding := fun isHolding => ?_ }
  · rcases update_eq_cases isWaiting with ⟨_, impossible⟩ | ⟨_, isWaiting⟩
    · cases impossible
    · exact { sound.waiting isWaiting with }
  · rcases update_eq_cases isHolding with ⟨_, impossible⟩ | ⟨_, isHolding⟩
    · cases impossible
    · exact ⟨{ (sound.holding isHolding).1 with }, (sound.holding isHolding).2⟩

variable {call : ThreadCall}

theorem QueueSound.enters (sound : QueueSound world) (free : world.lock = none) :
    QueueSound (world.entered who call) := by
  have issuedLength : (world.entered who call).issued.length = world.issued.length + 1 := by
    simp [ThreadWorld.entered]
  have newSlot : Carries ((world.entered who call).client.queue world.client.queueSize)
        call := by
    simp only [ThreadWorld.entered, update_self]
    exact ⟨rfl, _, rfl⟩
  have newTicket : (world.entered who call).tickets world.client.queueSize =
        world.issued.length := by
    simp only [ThreadWorld.entered, update_self]
  have newIssued : (world.entered who call).issued[world.issued.length]? = some (who, call) := by
    simp [ThreadWorld.entered]
  have grown : world.issued <+: (world.entered who call).issued := ⟨[(who, call)], rfl⟩
  refine { sound with
      numbered := ?_
      distinct := ?_
      fresh := ?_
      executed := fun ticket member =>
        issuedLength ▸ Nat.lt_succ_of_lt (sound.executed ticket member)
      kept := ?_
      waiting := ?_
      holding := ?_
      walking := fun isWalking => (sound.not_walking (by simp [free]) isWalking).elim
      returned := ?_ }
  · intro slot below
    rw [issuedLength]
    rcases ThreadWorld.entered_cases below with lower | rfl
    · rw [(ThreadWorld.entered_of_lt lower).2]
      exact Nat.lt_succ_of_lt (sound.numbered slot lower)
    · rw [newTicket]
      exact Nat.lt_succ_self _
  · intro slot below other otherBelow same
    rcases ThreadWorld.entered_cases below with lower | rfl <;>
      rcases ThreadWorld.entered_cases otherBelow with otherLower | rfl
    · rw [(ThreadWorld.entered_of_lt lower).2, (ThreadWorld.entered_of_lt otherLower).2] at same
      exact sound.distinct slot lower other otherLower same
    · rw [(ThreadWorld.entered_of_lt lower).2, newTicket] at same
      exact absurd same (Nat.ne_of_lt (sound.numbered slot lower))
    · rw [(ThreadWorld.entered_of_lt otherLower).2, newTicket] at same
      exact absurd same.symm (Nat.ne_of_lt (sound.numbered other otherLower))
    · rfl
  · intro slot below pending
    rcases ThreadWorld.entered_cases below with lower | rfl
    · rw [(ThreadWorld.entered_of_lt lower).1] at pending
      rw [(ThreadWorld.entered_of_lt lower).2]
      exact sound.fresh slot lower pending
    · rw [newTicket]
      exact fun member => absurd (sound.executed _ member) (Nat.lt_irrefl _)
  · intro ticket other otherCall isIssued notExecuted
    rcases Nat.lt_or_ge ticket world.issued.length with older | newer
    · rw [← grown.choose_spec, getElem?_append_left older] at isIssued
      obtain ⟨slot, below, isTicket, carries⟩ :=
        sound.kept ticket other otherCall isIssued notExecuted
      refine ⟨slot, Nat.lt_succ_of_lt below, ?_, ?_⟩
      · rw [(ThreadWorld.entered_of_lt below).2]
        exact isTicket
      · rw [(ThreadWorld.entered_of_lt below).1]
        exact carries
    · obtain ⟨inRange, _⟩ := List.getElem?_eq_some_iff.mp isIssued
      rw [issuedLength] at inRange
      have isNew : ticket = world.issued.length := Nat.le_antisymm (Nat.le_of_lt_succ inRange) newer
      subst isNew
      rw [newIssued, some.injEq, Prod.mk.injEq] at isIssued
      refine ⟨world.client.queueSize, Nat.lt_succ_self _, newTicket, ?_⟩
      rw [← isIssued.2]
      exact newSlot
  · intro other otherCall slot ticket isWaiting
    by_cases same : other = who
    · subst same
      simp only [ThreadWorld.entered, update_self] at isWaiting
      split at isWaiting
      · rename_i waits
        simp only [CallerPhase.waiting.injEq] at isWaiting
        obtain ⟨rfl, rfl, rfl⟩ := isWaiting
        exact ⟨waits, Nat.lt_succ_self _, newTicket, newIssued, .inl newSlot⟩
      · exact absurd isWaiting (by simp)
    · simp only [ThreadWorld.entered, update_of_ne same] at isWaiting
      have seated := sound.waiting isWaiting
      exact seated.transport (Nat.lt_succ_of_lt seated.below)
        (ThreadWorld.entered_of_lt seated.below).1 (ThreadWorld.entered_of_lt seated.below).2
        grown (prefix_refl _)
  · intro other otherCall slot ticket isHolding
    by_cases same : other = who
    · subst same
      simp only [ThreadWorld.entered, update_self] at isHolding
      split at isHolding <;> exact absurd isHolding (by simp)
    · simp only [ThreadWorld.entered, update_of_ne same] at isHolding
      exact (sound.not_holding (fun _ => by simp [free]) isHolding).elim
  · intro other ticket value member
    obtain ⟨otherCall, answer, isIssued, answers, isValue⟩ :=
      sound.returned other ticket value member
    obtain ⟨inRange, _⟩ := List.getElem?_eq_some_iff.mp isIssued
    refine ⟨otherCall, answer, ?_, answers, isValue⟩
    rw [← grown.choose_spec, getElem?_append_left inRange]
    exact isIssued

variable {slot ticket : Nat}

theorem QueueSound.finds (sound : QueueSound world)
    (isWaiting : world.phase who = .waiting call slot ticket) (free : world.lock = none)
    (isAnswer : (world.client.queue slot).op = .answer) :
    QueueSound { world with
        lock := some (.caller who)
        phase :=
          update world.phase who (.holding call slot ticket) } := by
  refine { sound with
      waiting := ?_
      holding := ?_
      walking := fun isWalking => (sound.not_walking (by simp [free]) isWalking).elim }
  · intro other otherCall otherSlot otherTicket otherWaiting
    rcases update_eq_cases otherWaiting with ⟨_, impossible⟩ | ⟨_, otherWaiting⟩
    · cases impossible
    · exact { sound.waiting otherWaiting with }
  · intro other otherCall otherSlot otherTicket otherHolding
    rcases update_eq_cases otherHolding with ⟨rfl, isHolding⟩ | ⟨_, otherHolding⟩
    · cases isHolding
      exact ⟨{ sound.waiting isWaiting with }, isAnswer, rfl⟩
    · exact (sound.not_holding (fun _ => by simp [free]) otherHolding).elim

theorem QueueSound.takes (sound : QueueSound world)
    (isHolding : world.phase who = .holding call slot ticket) :
    QueueSound { world with
        client := takeAnswer world.client call slot
        lock := none
        phase := update world.phase who .idle
        returned :=
          world.returned ++ [(who, ticket, call.result (world.client.queue slot))] } := by
  obtain ⟨seated, isAnswer, locked⟩ := sound.holding isHolding
  have shrinks := takeAnswer_size_le world.client call slot
  refine { sound with
      numbered := fun other below => sound.numbered other (Nat.lt_of_lt_of_le below shrinks)
      distinct := fun other below another anotherBelow =>
        sound.distinct other (Nat.lt_of_lt_of_le below shrinks) another
          (Nat.lt_of_lt_of_le anotherBelow shrinks)
      fresh := ?_
      kept := ?_
      waiting := ?_
      holding := ?_
      walking := fun isWalking => (sound.not_walking (by simp [locked]) isWalking).elim
      returned := ?_ }
  · intro other below pending
    by_cases here : other = slot
    · subst here
      simp only [takeAnswer_queue, update_self] at pending
      exact absurd pending (by simp [ThreadOp.pending])
    · simp only [takeAnswer_of_ne call here] at pending
      exact sound.fresh other (Nat.lt_of_lt_of_le below shrinks) pending
  · intro otherTicket other otherCall isIssued notExecuted
    obtain ⟨otherSlot, below, isTicket, carries⟩ :=
      sound.kept otherTicket other otherCall isIssued notExecuted
    have elsewhere : otherSlot ≠ slot := by
      rintro rfl
      exact carries.ne_answer isAnswer
    refine ⟨otherSlot, lt_takeAnswer_size call below elsewhere carries.ne_none, isTicket, ?_⟩
    simp only [takeAnswer_of_ne call elsewhere]
    exact carries
  · intro other otherCall otherSlot otherTicket otherWaiting
    rcases update_eq_cases otherWaiting with ⟨_, impossible⟩ | ⟨same, otherWaiting⟩
    · cases impossible
    · have otherSeated := sound.waiting otherWaiting
      have elsewhere : otherSlot ≠ slot := by
        rintro rfl
        exact same (otherSeated.unique seated)
      exact otherSeated.transport (lt_takeAnswer_size call otherSeated.below elsewhere
          otherSeated.ne_none) (takeAnswer_of_ne call elsewhere) rfl (prefix_refl _) (prefix_refl _)
  · intro other otherCall otherSlot otherTicket otherHolding
    rcases update_eq_cases otherHolding with ⟨_, impossible⟩ | ⟨same, otherHolding⟩
    · cases impossible
    · have otherLocked := (sound.holding otherHolding).2.2
      rw [locked] at otherLocked
      simp only [some.injEq, LockHolder.caller.injEq] at otherLocked
      exact absurd otherLocked.symm same
  · intro other otherTicket value member
    rcases mem_append.mp member with older | newer
    · exact sound.returned other otherTicket value older
    · simp only [mem_singleton, Prod.mk.injEq] at newer
      obtain ⟨rfl, rfl, rfl⟩ := newer
      rcases seated.content with carries | ⟨_, answers⟩
      · exact absurd isAnswer carries.ne_answer
      · exact ⟨call, _, seated.own, answers, rfl⟩

/-- Every move keeps the queue sound. -/
theorem QueueSound.move {after : ThreadWorld κ} {label : ThreadLabel κ} (sound : QueueSound world)
    (move : ThreadMove world label after) : QueueSound after := by
  cases move with
  | stays => exact sound
  | begins _ => exact sound.begins _
  | enters _ free _ => exact sound.enters free
  | finds isWaiting free isAnswer => exact sound.finds isWaiting free isAnswer
  | asserts isWaiting isNone => exact absurd isNone (sound.waiting isWaiting).ne_none
  | takes isHolding => exact sound.takes isHolding
  | locks isTop free notEmpty =>
    refine sound.moves (fun who isCaller => by simp [free] at isCaller) ?_ _ (prefix_refl _) rfl
    intro queuePos isAt
    cases isAt
    exact ⟨rfl, Nat.sub_lt (Nat.pos_of_ne_zero notEmpty) Nat.one_pos⟩
  | skips _ | rests _ _ =>
    exact sound.moves (fun _ isCaller => isCaller) (fun _ isAt => absurd isAt (by simp)) _
      (prefix_refl _) rfl
  | serves isAt served next =>
    refine sound.served isAt (.inl served) ?_
    rintro following isNext
    obtain ⟨locked, below⟩ := sound.walking isAt
    rcases next with ⟨_, isControl, isLock⟩ | ⟨_, isControl, _⟩
    · rw [isControl] at isNext
      cases isNext
      exact ⟨isLock.trans locked, Nat.lt_of_le_of_lt (Nat.sub_le ..) below⟩
    · rw [isControl] at isNext
      exact absurd isNext (by simp)
  | keepsLock isAt held =>
    exact sound.served isAt (.inr held) (fun _ isNext => absurd isNext (by simp))
  | quits isAt _ =>
    exact sound.moves (fun who isCaller => by simp [(sound.walking isAt).1] at isCaller)
      (fun _ isNext => absurd isNext (by simp)) _ (prefix_refl _) rfl
  | polls _ _ =>
    exact sound.moves (fun _ isCaller => isCaller) (fun _ isAt => absurd isAt (by simp)) _
      ⟨_, rfl⟩ (executedTickets_polled _ _)

/-- The queue of a thread is sound in every guarded run. -/
theorem queueSound_of_reachable {guard : ThreadWorld κ → ThreadLabel κ → Prop}
    (reachable : ((threadSystem κ).guarded guard).Reachable world) : QueueSound world :=
  threadSystem_invariant queueSound_start (fun _ _ _ sound _ move => sound.move move) reachable

/--
In every run of any callers and the worker: no operation is executed twice,
the slot of a waiting caller holds its operation or the answer to it, callers
have slots of their own, operations not yet executed are still in the slot
they were put into, and callers return the results of their own operations.
-/
theorem thread_ops_once (reachable : (threadSystem κ).Reachable world) :
    (executedTickets world.log).Nodup ∧ world.asserted = false ∧ (∀ who call slot ticket,
        (world.phase who = .waiting call slot ticket ∨
          world.phase who = .holding call slot ticket) →
        Seated world who call slot ticket) ∧
      (∀ first second slot, (∃ call ticket, Seated world first call slot ticket) →
        (∃ call ticket, Seated world second call slot ticket) →
        first = second) ∧
      (∀ ticket who call, world.issued[ticket]? = some (who, call) →
        ticket ∉ executedTickets world.log →
        ∃ slot < world.client.queueSize, world.tickets slot = ticket ∧
            Carries (world.client.queue slot) call) ∧
      ∀ who ticket value, (who, ticket, value) ∈ world.returned → ∃ call answer,
          world.issued[ticket]? = some (who, call) ∧ Answered world.log ticket call answer ∧
            value = call.result answer := by
  have sound : QueueSound world :=
    queueSound_of_reachable (reachable.to_guarded (fun _ _ => trivial))
  refine ⟨sound.once, sound.quiet, ?_, ?_, sound.kept, sound.returned⟩
  · rintro who call slot ticket (isWaiting | isHolding)
    · exact sound.waiting isWaiting
    · exact (sound.holding isHolding).1
  · rintro first second slot ⟨_, _, firstSeated⟩ ⟨_, _, secondSeated⟩
    exact firstSeated.unique secondSeated

end Steps

/--
Two callers on one thread: while the first waits for its graph, the second is
told the state, and later stops the thread that the first has run.
-/
def twoCallers : List (ThreadLabel Bool) :=
  [.begin true (.addGraph 1#64), .begin false .state, .enqueue true, .enqueue false, .tryLock,
    .switch, .poll fun _ _ => none, .tryGetAnswer true, .tryGetAnswer false, .takeAnswer false,
    .tryLock, .switch, .poll fun _ _ => none, .tryGetAnswer true, .takeAnswer true] ++
    servedStart true .run ++ servedCall false .stop

/-- The calls of two callers are executed once and return their own results. -/
theorem thread_ops_once_two :
    ∃ world : ThreadWorld Bool,
      (threadSystem Bool).Reachable world ∧
      world.issued = [(true, .addGraph 1#64), (false, .state), (true, .run), (false, .stop)] ∧
      world.returned = [(false, 1, .state 0#64), (true, 0, .code 0), (false, 3, .code 0)] ∧
      executedTickets world.log = [1, 0, 2, 3] ∧
      (executedTickets world.log).Nodup ∧
      ∃ answer, Answered world.log 1 .state answer ∧
        ThreadReturn.state 0#64 = ThreadCall.state.result answer := by
  have started : (threadSystem Bool).Reachable
        (ThreadWorld.start (fun _ => 0#64) (fun _ => .stopped)) :=
    .initial ⟨_, _, rfl⟩
  have ran : ((ThreadWorld.start (fun _ => 0#64) (fun _ => .stopped)).after twoCallers).any
        (fun world =>
          world.issued = [(true, .addGraph 1#64), (false, .state), (true, .run), (false, .stop)] ∧
          world.returned = [(false, 1, .state 0#64), (true, 0, .code 0), (false, 3, .code 0)] ∧
          executedTickets world.log = [1, 0, 2, 3]) = true := by
    decide +kernel
  obtain ⟨world, ran, isWorld⟩ := (Option.any_eq_true _ _).mp ran
  obtain ⟨isIssued, isReturned, isExecuted⟩ := of_decide_eq_true isWorld
  have reachable := reachable_after started ran
  obtain ⟨once, _, _, _, _, returned⟩ := thread_ops_once reachable
  refine ⟨world, reachable, isIssued, isReturned, isExecuted, once, ?_⟩
  obtain ⟨call, answer, isCall, answered, isValue⟩ :=
    returned false 1 (.state 0#64) (by rw [isReturned]; decide)
  rw [isIssued] at isCall
  cases isCall
  exact ⟨answer, answered, isValue⟩

end PacketGraph
