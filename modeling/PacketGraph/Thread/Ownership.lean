import PacketGraph.Lib.IdPool
import PacketGraph.Thread.Answers
import PacketGraph.Thread.Polling

namespace PacketGraph

open BitVec Function List TransitionSystem

/-!
# The graphs of a thread

The graphs that are in a thread are those that were added and not popped
since, each under the index that it was given.  The worker keeps no such list:
it has an array of graphs, a stack of free indices and the states of the
graphs.  These agree with it as long as nobody pops or starts an index under
which there is no graph.
-/

section Graphs

/-- The graphs of a thread, the last one added first. -/
def graphsAfter (graphs : List (Nat × BitVec 64)) :
    ThreadEvent → List (Nat × BitVec 64)
  | .executed _ worker cur =>
    match cur.op with
    | .addGraph =>
      match worker.nextIndex with
      | some id => (id, cur.arg) :: graphs
      | none => graphs
    | .rmGraph => graphs.eraseP (fun entry => entry.1 = cur.rmId.toNat)
    | _ => graphs
  | .polled _ => graphs

/-- The graphs that a history leaves in a thread. -/
def graphsIn (log : List ThreadEvent) : List (Nat × BitVec 64) :=
  log.foldl graphsAfter []

/-- The indices that have a graph. -/
def idsIn (log : List ThreadEvent) : List Nat :=
  (graphsIn log).map Prod.fst

/-- An operation pops or starts only an index that has a graph. -/
def NamesGraph (worker : Worker) (log : List ThreadEvent) (cur : ThreadOp) : Prop :=
  (cur.op = .rmGraph → cur.rmId.toNat ∈ idsIn log) ∧ (cur.op = .forceStart →
      cur.startId.toNat < worker.lastGraph → cur.startId.toNat ∈ idsIn log)

/-- What has to be observed when the worker executes an operation. -/
def Observant {κ : Type} (world : ThreadWorld κ) (label : ThreadLabel κ) : Prop :=
  match label with
  | .switch =>
    ∀ queuePos, world.control = .atOp queuePos →
      NamesGraph world.worker world.log (world.client.queue queuePos)
  | _ => True

/-- The worker knows the graphs of its thread. -/
structure GraphsSound (worker : Worker) (log : List ThreadEvent) : Prop where
  pool : IdPool.Sound worker.lastGraph (worker.freeGraph.values.map BitVec.toNat) (idsIn log)
  unlimited : worker.freeGraph.limit = 0
  inArrays : worker.lastGraph ≤ pgStackBlockSize
  holds : ∀ entry ∈ graphsIn log, worker.graphs entry.1 = entry.2
  started : ∀ i < worker.lastGraph, worker.started i ≠ .stopped → i ∈ idsIn log

variable {worker left : Worker} {cur answer : ThreadOp}
variable {log : List ThreadEvent}

theorem graphsIn_append (log : List ThreadEvent) (event : ThreadEvent) :
    graphsIn (log ++ [event]) = graphsAfter (graphsIn log) event :=
  foldl_concat ..

variable {id : Nat}

theorem GraphsSound.lookup (sound : GraphsSound worker log) (isIn : id ∈ idsIn log) :
    (graphsIn log).lookup id = some (worker.graphs id) := by
  obtain ⟨entry, member, rfl⟩ := mem_map.mp isIn
  obtain ⟨before, after, isSplit⟩ := append_of_mem member
  rw [sound.holds entry member, lookup_eq_some_iff]
  refine ⟨before, after, isSplit, ?_⟩
  intro other otherMember
  have distinct := sound.pool.used_nodup
  unfold idsIn at distinct
  rw [isSplit, map_append, map_cons] at distinct
  have fresh := (nodup_cons.mp (nodup_middle.mp distinct)).1
  refine bne_iff_ne.mpr (fun same => fresh ?_)
  exact mem_append_left _ (same ▸ mem_map_of_mem otherMember)

theorem GraphsSound.mem (sound : GraphsSound worker log) (isIn : id ∈ idsIn log) :
    (id, worker.graphs id) ∈ graphsIn log := by
  obtain ⟨entry, member, rfl⟩ := mem_map.mp isIn
  rw [sound.holds entry member]
  exact member

/-- The index on top of the stack is a free one. -/
theorem GraphsSound.free_cases (sound : GraphsSound worker log) :
    worker.freeGraph.values = [] ∧ (worker.freeGraph.top (-1)).toInt = -1 ∨
      ∃ first others, worker.freeGraph.values = first :: others ∧
          (worker.freeGraph.top (-1)).toInt = first.toNat := by
  cases isFree : worker.freeGraph.values with
  | nil =>
    refine .inl ⟨rfl, ?_⟩
    simp [Stack.top, isFree]
  | cons first others =>
    refine .inr ⟨first, others, rfl, ?_⟩
    have below : first.toNat < worker.lastGraph := sound.pool.below _ (by simp [isFree])
    have small : first.toNat < 126 := Nat.lt_of_lt_of_le below sound.inArrays
    simp only [Stack.top, isFree, headD_cons]
    rw [toInt_eq_toNat_cond]
    rw [if_pos (by omega)]

theorem Stack.push_unlimited {α : Type} {stack : Stack α} (unlimited : stack.limit = 0) (value : α)
    : stack.push value = { stack with values := value :: stack.values } := by
  unfold Stack.push
  rw [if_neg (by simp [unlimited])]

variable {ticket : Nat}

/-- A graph is put under an index that was free. -/
theorem GraphsSound.adds (sound : GraphsSound worker log) (isAdd : cur.op = .addGraph)
    (isNext : worker.nextIndex = some id) (isGraphs : left.graphs = update worker.graphs id cur.arg)
    (isStarted : left.started = update worker.started id .running)
    (inRange : ∀ i < left.lastGraph, i ≠ id → i < worker.lastGraph)
    (unlimited : left.freeGraph.limit = 0) (inArrays : left.lastGraph ≤ pgStackBlockSize)
    (pool : IdPool.Sound left.lastGraph (left.freeGraph.values.map BitVec.toNat) (id :: idsIn log))
    : GraphsSound left (log ++ [.executed ticket worker cur]) := by
  have isIn : graphsIn (log ++ [.executed ticket worker cur]) = (id, cur.arg) :: graphsIn log := by
    rw [graphsIn_append]
    simp only [graphsAfter, isAdd, isNext]
  have isIds : idsIn (log ++ [.executed ticket worker cur]) = id :: idsIn log := by
    unfold idsIn
    rw [isIn, map_cons]
  refine ⟨isIds ▸ pool, unlimited, inArrays, ?_, ?_⟩
  · intro entry member
    rw [isIn] at member
    rw [isGraphs]
    rcases mem_cons.mp member with rfl | old
    · exact update_self ..
    · have elsewhere : entry.1 ≠ id := by
        intro same
        exact (nodup_cons.mp pool.used_nodup).1 (same ▸ mem_map_of_mem old)
      rw [update_of_ne elsewhere]
      exact sound.holds entry old
  · intro i below notStopped
    rw [isIds, mem_cons]
    by_cases here : i = id
    · exact .inl here
    · rw [isStarted, update_of_ne here] at notStopped
      exact .inr (sound.started i (inRange i below here) notStopped)

/-- A graph is popped and its index is free again. -/
theorem GraphsSound.pops (sound : GraphsSound worker log) (ticket : Nat) (isRm : cur.op = .rmGraph)
    (isIndex : IsGraphIndex cur.rmId) (isIn : cur.rmId.toNat ∈ idsIn log) :
    GraphsSound { worker with
        freeGraph := worker.freeGraph.push (BitVec.ofInt 8 cur.rmId)
        started := update worker.started cur.rmId.toNat .stopped }
      (log ++ [.executed ticket worker cur]) := by
  have isGraphs : graphsIn (log ++ [.executed ticket worker cur]) =
        (graphsIn log).eraseP (fun entry => entry.1 = cur.rmId.toNat) := by
    rw [graphsIn_append]
    simp only [graphsAfter, isRm]
  have isIds : idsIn (log ++ [.executed ticket worker cur]) = (idsIn log).erase cur.rmId.toNat := by
    unfold idsIn
    rw [isGraphs, erase_eq_eraseP', eraseP_map]
    rfl
  have isId : (BitVec.ofInt 8 cur.rmId).toNat = cur.rmId.toNat := by
    obtain ⟨low, high⟩ := isIndex
    unfold pgStackBlockSize at high
    rw [toNat_ofInt]
    omega
  rw [Stack.push_unlimited sound.unlimited]
  refine ⟨?_, sound.unlimited, sound.inArrays, ?_, ?_⟩
  · rw [isIds, map_cons, isId]
    exact sound.pool.giveBack isIn
  · intro entry member
    rw [isGraphs] at member
    exact sound.holds entry (mem_of_mem_eraseP member)
  · intro i below notStopped
    rw [isIds]
    by_cases here : i = cur.rmId.toNat
    · rw [here] at notStopped
      exact absurd (update_self ..) notStopped
    · change update worker.started _ _ i ≠ _ at notStopped
      rw [update_of_ne here] at notStopped
      exact (mem_erase_of_ne here).mpr (sound.started i below notStopped)

/-- An operation that moves no graph keeps the graphs. -/
theorem GraphsSound.same (sound : GraphsSound worker log) (event : ThreadEvent)
    (sameIn : graphsIn (log ++ [event]) = graphsIn log)
    (sameFree : left.freeGraph = worker.freeGraph) (sameLast : left.lastGraph = worker.lastGraph)
    (sameGraphs : left.graphs = worker.graphs)
    (started : ∀ i < worker.lastGraph, left.started i ≠ .stopped → worker.started i ≠ .stopped ∨ i ∈
        idsIn log) : GraphsSound left (log ++ [event]) := by
  have sameIds : idsIn (log ++ [event]) = idsIn log := congrArg (List.map Prod.fst) sameIn
  refine ⟨?_, ?_, ?_, ?_, ?_⟩
  · rw [sameLast, sameFree, sameIds]
    exact sound.pool
  · exact sameFree ▸ sound.unlimited
  · exact sameLast ▸ sound.inArrays
  · rw [sameIn, sameGraphs]
    exact sound.holds
  · intro i below notStopped
    rw [sameIds]
    rw [sameLast] at below
    rcases started i below notStopped with wasStarted | isIn
    · exact sound.started i below wasStarted
    · exact isIn

/-- Without a free index the stack is empty. -/
theorem GraphsSound.free_empty (sound : GraphsSound worker log)
    (empty : (worker.freeGraph.top (-1)).toInt = -1) : worker.freeGraph.values = [] := by
  rcases sound.free_cases with ⟨isEmpty, _⟩ | ⟨first, _, _, isTop⟩
  · exact isEmpty
  · omega

theorem GraphsSound.executed (sound : GraphsSound worker log) (ticket : Nat)
    (names : NamesGraph worker log cur) (executes : worker.executes cur = true)
    (effect : Effect worker cur answer left) :
    GraphsSound left (log ++ [.executed ticket worker cur]) := by
  have sameIn (notAdd : cur.op = .addGraph → worker.nextIndex = none) (notRm : cur.op ≠ .rmGraph) :
      graphsIn (log ++ [.executed ticket worker cur]) = graphsIn log := by
    rw [graphsIn_append]
    simp only [graphsAfter]
    split
    · rename_i isAdd
      rw [notAdd isAdd]
    · exact absurd ‹_› notRm
    · rfl
  cases effect with
  | idle idle => exact absurd executes (by simp [idle])
  | state isOp | stop isOp | popError isOp _ =>
    exact sound.same _ (sameIn (by simp [isOp]) (by simp [isOp])) rfl rfl rfl (fun _ _ => .inl)
  | rmGraph isRm isIndex => exact sound.pops ticket isRm isIndex (names.1 isRm)
  | addFails isAdd empty full =>
    have isNone : worker.nextIndex = none := by
      unfold Worker.nextIndex
      rw [if_pos empty, if_pos full]
    have sameFree : worker.freeGraph.rest = worker.freeGraph := by
      simp only [Stack.rest, sound.free_empty empty, tail_nil]
      rw [← sound.free_empty empty]
    exact sound.same _ (sameIn (fun _ => isNone) (by simp [isAdd]))
      sameFree rfl rfl (fun _ _ => .inl)
  | addNext isAdd empty notFull =>
    have isFree := sound.free_empty empty
    refine sound.adds isAdd (Worker.nextIndex_fresh empty notFull) rfl rfl ?_ sound.unlimited ?_ ?_
    · intro i below elsewhere
      exact Nat.lt_of_le_of_ne (Nat.le_of_lt_succ below) elsewhere
    · exact Nat.succ_le_of_lt (Nat.lt_of_le_of_ne sound.inArrays notFull)
    · have pool := sound.pool.takeNext
      simp only [isFree] at pool
      simpa [Stack.rest, isFree] using pool
  | addReused isAdd isId inArrays =>
    rcases sound.free_cases with ⟨_, empty⟩ | ⟨first, others, isFree, isTop⟩
    · omega
    · have isFirst : first.toNat = _ := Int.ofNat_inj.mp (isTop.symm.trans isId)
      have pool := sound.pool
      rw [isFree, map_cons, isFirst] at pool
      refine sound.adds isAdd (Worker.nextIndex_reused isId) rfl rfl
        (fun i below _ => below) sound.unlimited sound.inArrays ?_
      simpa [Stack.rest, isFree] using pool.takeFree
  | forceStart isStart _ _ =>
    refine sound.same _ (sameIn (by simp [isStart]) (by simp [isStart])) rfl rfl rfl ?_
    intro i below notStopped
    by_cases here : i = cur.startId.toNat
    · rw [here] at below ⊢
      exact .inr (names.2 isStart below)
    · change update worker.started _ _ i ≠ _ at notStopped
      rw [update_of_ne here] at notStopped
      exact .inl notStopped
  | run isRun _ =>
    refine sound.same _ (sameIn (by simp [isRun]) (by simp [isRun])) rfl rfl rfl ?_
    intro i below notStopped
    simp only at notStopped
    split at notStopped
    · rename_i isBroken
      exact .inl (by simp [isBroken.2])
    · exact .inl notStopped

/-- A turn polls a graph of the thread. -/
theorem GraphsSound.turned (sound : GraphsSound worker log) (outcome : Option (BitVec 64)) {i : Nat}
    (inRange : i < worker.lastGraph) :
    GraphsSound (pollTurn outcome i worker).1 (log ++ (pollTurn outcome i worker).2.map .polled) ∧
      ∀ poll ∈ (pollTurn outcome i worker).2, (poll.index, poll.graph) ∈ graphsIn log := by
  unfold pollTurn
  split
  · simpa using sound
  · rename_i isRunning
    have isIn : i ∈ idsIn log := sound.started i inRange (by simp [not_not.mp isRunning])
    cases outcome with
    | none =>
      refine ⟨sound.same _ (graphsIn_append _ _) rfl rfl rfl (fun _ _ => .inl), ?_⟩
      intro poll member
      rw [mem_singleton.mp member]
      exact sound.mem isIn
    | some error =>
      refine ⟨sound.same _ (graphsIn_append _ _) rfl rfl rfl ?_, ?_⟩
      · intro other below notStopped
        by_cases here : other = i
        · exact .inr (here ▸ isIn)
        · change update worker.started _ _ other ≠ _ at notStopped
          rw [update_of_ne here] at notStopped
          exact .inl notStopped
      · intro poll member
        rw [mem_singleton.mp member]
        exact sound.mem isIn

/-- The graphs of a thread and what was popped and polled so far. -/
structure GraphHistory (worker : Worker) (log : List ThreadEvent) : Prop where
  graphs : GraphsSound worker log
  inArrays : ∀ (ticket : Nat) (found : Worker) (cur : ThreadOp),
      .executed ticket found cur ∈ log → found.lastGraph ≤ pgStackBlockSize
  popped : ∀ (n ticket : Nat) (found : Worker) (cur : ThreadOp),
      log[n]? = some (.executed ticket found cur) → cur.op = .rmGraph →
      (graphsIn (log.take n)).lookup cur.rmId.toNat = some (found.graphs cur.rmId.toNat)
  polled : ∀ (n : Nat) (poll : PollEvent), log[n]? = some (.polled poll) →
      (poll.index, poll.graph) ∈ graphsIn (log.take n)

/-- What a history with one more entry has to show. -/
theorem GraphHistory.extend {event : ThreadEvent} (history : GraphHistory worker log)
    (graphs : GraphsSound left (log ++ [event]))
    (executed : ∀ ticket found cur, event = .executed ticket found cur → found.lastGraph ≤
        pgStackBlockSize ∧ (cur.op = .rmGraph → (graphsIn log).lookup cur.rmId.toNat = some
        (found.graphs cur.rmId.toNat)))
    (polled : ∀ poll, event = .polled poll → (poll.index, poll.graph) ∈ graphsIn log) :
    GraphHistory left (log ++ [event]) := by
  have takeOld {n : Nat} {old : ThreadEvent} (isOld : log[n]? = some old) :
      (log ++ [event]).take n = log.take n := by
    obtain ⟨below, _⟩ := List.getElem?_eq_some_iff.mp isOld
    exact take_append_of_le_length (Nat.le_of_lt below)
  refine ⟨graphs, ?_, ?_, ?_⟩
  · intro ticket found cur member
    rcases mem_append.mp member with old | new
    · exact history.inArrays ticket found cur old
    · exact (executed ticket found cur (mem_singleton.mp new).symm).1
  · intro n ticket found cur isEvent isRm
    rcases getElem?_concat.mp isEvent with old | ⟨rfl, new⟩
    · rw [takeOld old]
      exact history.popped n ticket found cur old isRm
    · rw [take_left]
      exact (executed ticket found cur new.symm).2 isRm
  · intro n poll isEvent
    rcases getElem?_concat.mp isEvent with old | ⟨rfl, new⟩
    · rw [takeOld old]
      exact history.polled n poll old
    · rw [take_left]
      exact polled poll new.symm

theorem GraphHistory.executed (history : GraphHistory worker log) (ticket : Nat)
    (names : NamesGraph worker log cur) (executes : worker.executes cur = true)
    (effect : Effect worker cur answer left) :
    GraphHistory left (log ++ [.executed ticket worker cur]) := by
  refine history.extend (history.graphs.executed ticket names executes effect) ?_ ?_
  · intro _ _ _ isEvent
    cases isEvent
    exact ⟨history.graphs.inArrays, fun isRm => history.graphs.lookup (names.1 isRm)⟩
  · intro poll isEvent
    cases isEvent

theorem GraphHistory.turned (history : GraphHistory worker log) (outcome : Option (BitVec 64))
    {i : Nat} (inRange : i < worker.lastGraph) :
    GraphHistory (pollTurn outcome i worker).1
      (log ++ (pollTurn outcome i worker).2.map .polled) := by
  obtain ⟨graphs, polled⟩ := history.graphs.turned outcome inRange
  -- a turn polls at most one graph
  rcases pollTurn_polls outcome i worker with none | ⟨poll, one⟩
  · rw [none] at graphs ⊢
    rw [map_nil, append_nil] at graphs ⊢
    exact ⟨graphs, history.inArrays, history.popped, history.polled⟩
  · rw [one] at graphs polled ⊢
    refine history.extend graphs (fun _ _ _ isEvent => by cases isEvent) ?_
    intro other isEvent
    cases isEvent
    exact polled poll mem_cons_self

/-- The worker reads the id that a caller gave. -/
theorem rmId_of_carries {cur : ThreadOp} {id : BitVec 32} (isIndex : IsGraphIndex id.toInt)
    (carries : Carries cur (.popGraph id)) : cur.rmId = id.toInt := by
  obtain ⟨_, old, isArg⟩ := carries
  have isLow : cur.arg.setWidth 16 = id.setWidth 16 := by
    have half := setWidth_setI32 old id
    rw [isArg]
    show (setI32 old id).setWidth 16 = id.setWidth 16
    rw [← half, setWidth_setWidth_of_le _ (by decide)]
    simp
  unfold ThreadOp.rmId
  rw [isLow]
  obtain ⟨low, high⟩ := isIndex
  unfold pgStackBlockSize at high
  have small : id.toNat < 126 := by
    rw [toInt_eq_toNat_cond] at low high
    split at low <;> omega
  rw [toInt_eq_toNat_cond, toInt_eq_toNat_cond, toNat_setWidth]
  omega

/-- What popping a graph returns. -/
theorem GraphHistory.pop_result (history : GraphHistory worker log) {id : BitVec 32}
    {answer : ThreadOp} (isIndex : IsGraphIndex id.toInt)
    (answers : Answered log ticket (.popGraph id) answer) :
    ∃ (n : Nat) (found : Worker) (cur : ThreadOp), log[n]? = some (.executed ticket found cur) ∧
        (graphsIn (log.take n)).lookup id.toInt.toNat = some answer.arg := by
  obtain ⟨found, cur, left, member, carries, serves⟩ := answers
  obtain ⟨n, isEvent⟩ := getElem?_of_mem member
  refine ⟨n, found, cur, isEvent, ?_⟩
  have isRm : cur.op = .rmGraph := carries.1
  have popped := history.popped n ticket found cur isEvent isRm
  rw [rmId_of_carries isIndex carries] at popped
  rw [popped]
  cases serves.effect with
  | rmGraph _ _ => rw [rmId_of_carries isIndex carries]
  | idle idle => simp [Worker.executes, ThreadOp.pending, isRm] at idle
  | state isOp | stop isOp | popError isOp _ | addFails isOp _ _ | addNext isOp _ _
  | addReused isOp _ _ | forceStart isOp _ _ | run isOp _ => simp [isRm] at isOp

theorem graphsIn_take_succ {log : List ThreadEvent} {n : Nat} {event : ThreadEvent}
    (isEvent : log[n]? = some event) :
    graphsIn (log.take (n + 1)) = graphsAfter (graphsIn (log.take n)) event := by
  rw [take_add_one, isEvent]
  exact graphsIn_append _ _

/-- What adding a graph returns is the index that it got. -/
theorem GraphHistory.add_result (history : GraphHistory worker log) {graph : BitVec 64}
    {answer : ThreadOp} (answers : Answered log ticket (.addGraph graph) answer) :
    ∃ (n : Nat) (found : Worker) (cur : ThreadOp), log[n]? = some (.executed ticket found cur) ∧
        ((answer.arg.setWidth 32).toInt = -1 ∧ graphsIn (log.take (n + 1)) = graphsIn (log.take n) ∨
          ∃ id : Nat, (answer.arg.setWidth 32).toInt = id ∧ graphsIn (log.take (n + 1)) =
                (id, graph) :: graphsIn (log.take n)) := by
  obtain ⟨found, cur, left, member, carries, serves⟩ := answers
  obtain ⟨n, isEvent⟩ := getElem?_of_mem member
  refine ⟨n, found, cur, isEvent, ?_⟩
  rw [graphsIn_take_succ isEvent]
  obtain ⟨isAdd, old, isArg⟩ := carries
  change cur.op = .addGraph at isAdd
  change cur.arg = graph at isArg
  have small := history.inArrays ticket found cur member
  unfold pgStackBlockSize at small
  have isId {id : Nat} (below : id ≤ 126) : (BitVec.ofNat 32 id).toInt = id := by
    rw [toInt_eq_toNat_cond, toNat_ofNat]
    omega
  cases serves.effect with
  | addFails _ empty full =>
    refine .inl ⟨?_, ?_⟩
    · rw [setWidth_setI32]
      rfl
    · have isNone : found.nextIndex = none := by
        unfold Worker.nextIndex
        rw [if_pos empty, if_pos full]
      simp only [graphsAfter, isAdd, isNone]
  | addNext _ empty notFull =>
    refine .inr ⟨found.lastGraph, ?_, ?_⟩
    · rw [setWidth_setI32]
      exact isId small
    · simp only [graphsAfter, isAdd, Worker.nextIndex_fresh empty notFull, isArg]
  | @addReused id _ isTop inArrays =>
    refine .inr ⟨id, ?_, ?_⟩
    · rw [setWidth_setI32]
      exact isId (Nat.le_of_lt inArrays)
    · simp only [graphsAfter, isAdd, Worker.nextIndex_reused isTop, isArg]
  | idle idle => simp [Worker.executes, ThreadOp.pending, isAdd] at idle
  | state isOp | stop isOp | popError isOp _ | rmGraph isOp _ | forceStart isOp _ _ | run isOp _ =>
    simp [isAdd] at isOp

end Graphs

section Runs

variable {κ : Type} [DecidableEq κ]
variable {world : ThreadWorld κ}

theorem graphHistory_of_reachable (reachable : ((threadSystem κ).guarded Observant).Reachable world)
    : GraphHistory world.worker world.log := by
  have isAllowed (world : ThreadWorld κ) (queuePos : Nat) (observant : Observant world .switch)
      (isAt : world.control = .atOp queuePos) :
      NamesGraph world.worker world.log (world.client.queue queuePos) :=
    observant queuePos isAt
  refine history_of_reachable isAllowed ?_ ?_ ?_ reachable
  · intro graphs started
    refine ⟨⟨IdPool.Sound.empty, rfl, Nat.zero_le _, ?_, ?_⟩, ?_, ?_, ?_⟩
    · exact fun _ member => absurd member not_mem_nil
    · exact fun _ below => absurd below (Nat.not_lt_zero _)
    · exact fun _ _ _ member => absurd member not_mem_nil
    · exact fun _ _ _ _ isEvent => by simp at isEvent
    · exact fun _ _ isEvent => by simp at isEvent
  · intro worker log cur answer left ticket history names executes effect
    exact history.executed ticket names executes effect
  · intro worker log outcome i history _ inRange
    exact history.turned outcome inRange

/--
If only indices with a graph are popped and started, the graphs of a thread
have distinct indices, those that adding them returned; popping an index
returns its graph; and only graphs of the thread are polled.
-/
theorem thread_graphs_owned (reachable : ((threadSystem κ).guarded Observant).Reachable world) :
    (idsIn world.log).Nodup ∧ (∀ who ticket value graph, (who, ticket, value) ∈ world.returned →
        world.issued[ticket]? = some (who, .addGraph graph) →
        ∃ (n : Nat) (worker : Worker) (cur : ThreadOp),
          world.log[n]? = some (.executed ticket worker cur) ∧
            (value = .code (-1) ∧ graphsIn (world.log.take (n + 1)) = graphsIn (world.log.take n) ∨
              ∃ id : Nat, value = .code id ∧ graphsIn (world.log.take (n + 1)) =
                    (id, graph) :: graphsIn (world.log.take n))) ∧
      (∀ who ticket value id, (who, ticket, value) ∈ world.returned →
        world.issued[ticket]? = some (who, .popGraph id) →
        IsGraphIndex id.toInt →
        ∃ (n : Nat) (worker : Worker) (cur : ThreadOp),
          world.log[n]? = some (.executed ticket worker cur) ∧ value = .graph
                (((graphsIn (world.log.take n)).lookup id.toInt.toNat).getD 0#64)) ∧
      ∀ (n : Nat) (poll : PollEvent), world.log[n]? = some (.polled poll) →
        (poll.index, poll.graph) ∈ graphsIn (world.log.take n) := by
  have history := graphHistory_of_reachable reachable
  have queue := queueSound_of_reachable reachable
  refine ⟨history.graphs.pool.used_nodup, ?_, ?_, history.polled⟩
  · intro who ticket value graph returned isIssued
    obtain ⟨call, answer, issued, answers, isValue⟩ := queue.returned who ticket value returned
    rw [isIssued, Option.some.injEq, Prod.mk.injEq] at issued
    rw [← issued.2] at answers isValue
    obtain ⟨n, found, cur, isEvent, result⟩ := history.add_result answers
    refine ⟨n, found, cur, isEvent, ?_⟩
    rw [isValue]
    rcases result with ⟨isCode, same⟩ | ⟨id, isCode, added⟩
    · exact .inl ⟨congrArg ThreadReturn.code isCode, same⟩
    · exact .inr ⟨id, congrArg ThreadReturn.code isCode, added⟩
  · intro who ticket value id returned isIssued isIndex
    obtain ⟨call, answer, issued, answers, isValue⟩ := queue.returned who ticket value returned
    rw [isIssued, Option.some.injEq, Prod.mk.injEq] at issued
    rw [← issued.2] at answers isValue
    obtain ⟨n, found, cur, isEvent, result⟩ := history.pop_result isIndex answers
    refine ⟨n, found, cur, isEvent, ?_⟩
    rw [isValue, result]
    rfl

end Runs

/-- A caller adds a graph and pops it again. -/
theorem thread_graphs_owned_popped :
    ∃ world : ThreadWorld Unit, ((threadSystem Unit).guarded Observant).Reachable world ∧
        world.returned = [((), 0, .code 0), ((), 1, .graph 1#64)] ∧
        (idsIn world.log).Nodup := by
  have started : ((threadSystem Unit).guarded Observant).Reachable idleThread :=
    .initial ⟨_, _, rfl⟩
  -- the graph is added
  have begun := guarded_step (.begin () (.addGraph 1#64)) started trivial rfl
  have entered := guarded_step (.enqueue ()) begun trivial rfl
  have locked := guarded_step .tryLock entered trivial rfl
  have added := guarded_step .switch locked (by
      intro queuePos isAt
      cases isAt
      refine ⟨fun isRm => ?_, fun isStart => ?_⟩
      · cases isRm
      · cases isStart)
    rfl
  have found := guarded_step (.tryGetAnswer ()) added trivial rfl
  have taken := guarded_step (.takeAnswer ()) found trivial rfl
  have rested := guarded_step (.poll fun _ _ => none) taken trivial rfl
  -- and popped
  have begun := guarded_step (.begin () (.popGraph 0#32)) rested trivial rfl
  have entered := guarded_step (.enqueue ()) begun trivial rfl
  have locked := guarded_step .tryLock entered trivial rfl
  have popped := guarded_step .switch locked (by
      intro queuePos isAt
      cases isAt
      refine ⟨fun _ => mem_cons_self, fun isStart => ?_⟩
      cases isStart)
    rfl
  have found := guarded_step (.tryGetAnswer ()) popped trivial rfl
  have taken := guarded_step (.takeAnswer ()) found trivial rfl
  exact ⟨_, taken, rfl, (thread_graphs_owned taken).1⟩

/-- A caller pops a graph twice and then adds two graphs. -/
def poppedTwice : List (ThreadLabel Unit) :=
  servedCall () (.addGraph 1#64) ++ servedCall () (.popGraph 0#32) ++
    servedCall () (.popGraph 0#32) ++ servedCall () (.addGraph 2#64) ++
    servedCall () (.addGraph 3#64)

/--
Popping an index without a graph returns the graph that was popped before, and
two graphs get that index.
-/
theorem thread_graphs_share_index :
    ∃ world : ThreadWorld Unit, (threadSystem Unit).Reachable world ∧ world.returned =
          [((), 0, .code 0), ((), 1, .graph 1#64), ((), 2, .graph 1#64),
            ((), 3, .code 0), ((), 4, .code 0)] ∧
        graphsIn world.log = [(0, 3#64), (0, 2#64)] := by
  have started : (threadSystem Unit).Reachable idleThread := .initial ⟨_, _, rfl⟩
  obtain ⟨world, ran, isReturned, isIn⟩ : ∃ world, idleThread.after poppedTwice = some world ∧
          world.returned = [((), 0, .code 0), ((), 1, .graph 1#64), ((), 2, .graph 1#64),
              ((), 3, .code 0), ((), 4, .code 0)] ∧ graphsIn world.log = [(0, 3#64), (0, 2#64)] :=
    ⟨_, rfl, rfl, rfl⟩
  exact ⟨world, reachable_after started ran, isReturned, isIn⟩

end PacketGraph
