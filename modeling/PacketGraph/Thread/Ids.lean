import PacketGraph.Thread.Worker

namespace PacketGraph

open Function List

/-!
# The ids of threads

A thread has the id of the lcore it runs on.  Ids of destroyed threads wait on
a stack, and the lcores that had no thread yet are taken in increasing order.
`pg_thread_destroy` compares an id with the number of threads that there may
be, as if the lcores had no gaps.

`rte_get_next_lcore` is a parameter, of which nothing is known but that it
walks the slave lcores in increasing order.
-/

/-- The static variables of `thread.c`, where `live` tells which `thread_ids` are set. -/
structure ThreadIds where
  freeThreadIds : List Nat
  live : Nat → Bool
  threadsMax : Nat
  lastThreadId : Nat
  nbThreadIdUsed : Nat

/-- No thread was ever started. -/
def ThreadIds.start : ThreadIds :=
  { freeThreadIds := [], live := fun _ => false, threadsMax := 0, lastThreadId := 0,
    nbThreadIdUsed := 0 }

/-- `pg_thread_max`, for the slave lcores. -/
def pgThreadMax (slaves : List Nat) : Nat :=
  min slaves.length pgStackBlockSize

/-- The part of `pg_thread_init` that starts a thread. -/
def ThreadIds.launch (ids : ThreadIds) (id : Nat) : Option Nat × ThreadIds :=
  (some id, { ids with nbThreadIdUsed := ids.nbThreadIdUsed + 1, live := update ids.live id true })

/-- `pg_thread_init`. -/
def pgThreadInit (slaves : List Nat) (rteGetNextLcore : Nat → Nat) (ids : ThreadIds) :
    Option Nat × ThreadIds :=
  let ids := { ids with threadsMax := pgThreadMax slaves }
  match ids.freeThreadIds with
  | id :: rest => { ids with freeThreadIds := rest }.launch id
  | [] =>
    let id := rteGetNextLcore ids.lastThreadId
    if ids.threadsMax < ids.nbThreadIdUsed + 1 then (none, ids)
    else { ids with lastThreadId := id }.launch id

/-- `pg_thread_destroy`, where the worker quits. -/
def pgThreadDestroy (ids : ThreadIds) (id : Nat) : Bool × ThreadIds :=
  if ids.threadsMax < id ∨ ids.live id = false then (false, ids)
  else
    let nb := ids.nbThreadIdUsed - 1
    let ids := { ids with nbThreadIdUsed := nb, live := update ids.live id false }
    if nb = 0 then (true, { ids with freeThreadIds := [], lastThreadId := 0 })
    else (true, { ids with freeThreadIds := id :: ids.freeThreadIds })

/-- A call on the threads, with an id below `PG_THREAD_MAX`. -/
inductive ThreadIdCall where
  | init
  | destroy (id : Fin pgStackBlockSize)

/-- What a call leaves. -/
def ThreadIds.exec (slaves : List Nat) (rteGetNextLcore : Nat → Nat) (ids : ThreadIds) :
    ThreadIdCall → ThreadIds
  | .init => (pgThreadInit slaves rteGetNextLcore ids).2
  | .destroy id => (pgThreadDestroy ids id).2

/-- What some calls leave. -/
def idsAfter (slaves : List Nat) (rteGetNextLcore : Nat → Nat) (calls : List ThreadIdCall) :
    ThreadIds :=
  calls.foldl (ThreadIds.exec slaves rteGetNextLcore) .start

/-- The ids are handed out as they should be. -/
structure IdsRight (slaves : List Nat) (rteGetNextLcore : Nat → Nat) (ids : ThreadIds) : Prop where
  lcores : ∀ id, ids.live id = true → id ∈ slaves
  fresh : ∀ id, (pgThreadInit slaves rteGetNextLcore ids).1 = some id →
    ids.live id = false ∧ id ∈ slaves
  count : ids.nbThreadIdUsed = slaves.countP ids.live
  init : (pgThreadInit slaves rteGetNextLcore ids).1.isSome ↔
    slaves.countP ids.live < pgThreadMax slaves
  destroy : ∀ id < pgStackBlockSize, (pgThreadDestroy ids id).1 = true ↔ ids.live id = true
  free : ids.freeThreadIds.Nodup ∧ ∀ id ∈ ids.freeThreadIds, ids.live id = false

/--
The slave lcores, in increasing order behind the master.  While there are later
ones, `rte_get_next_lcore` gives the next of them.
-/
structure IsLcores (slaves : List Nat) (rteGetNextLcore : Nat → Nat) : Prop where
  increasing : slaves.Pairwise (· < ·)
  inRange : ∀ id ∈ slaves, 0 < id ∧ id < pgStackBlockSize
  walks : ∀ i, ∀ id ∈ slaves, i < id →
    rteGetNextLcore i ∈ slaves ∧ i < rteGetNextLcore i ∧ rteGetNextLcore i ≤ id

/-- What holds of the ids in every run. -/
structure IdsSound (slaves : List Nat) (ids : ThreadIds) : Prop where
  lcores : ∀ id, ids.live id = true → id ∈ slaves ∧ id ≤ ids.lastThreadId
  free : ∀ id ∈ ids.freeThreadIds, (id ∈ slaves ∧ id ≤ ids.lastThreadId) ∧ ids.live id = false
  distinct : ids.freeThreadIds.Nodup
  taken : ∀ id ∈ slaves, id ≤ ids.lastThreadId → ids.live id = true ∨ id ∈ ids.freeThreadIds
  count : ids.nbThreadIdUsed = slaves.countP ids.live
  max : ids.nbThreadIdUsed = 0 ∨ ids.threadsMax = slaves.length

section Facts

variable {slaves : List Nat} {rteGetNextLcore : Nat → Nat} {ids : ThreadIds} {id : Nat}

section

variable (isLcores : IsLcores slaves rteGetNextLcore)

include isLcores

theorem IsLcores.nodup : slaves.Nodup :=
  isLcores.increasing.imp (fun less => Nat.ne_of_lt less)

theorem IsLcores.pgThreadMax_eq : pgThreadMax slaves = slaves.length := by
  have few : slaves.length ≤ (List.range pgStackBlockSize).length :=
    (subperm_of_subset isLcores.nodup
      (fun id member => mem_range.mpr (isLcores.inRange id member).2)).length_le
  rw [length_range] at few
  exact Nat.min_eq_left few

/-- A thread that starts is one more. -/
theorem IsLcores.countP_update (member : id ∈ slaves) (live : Nat → Bool) :
    slaves.countP (update live id true) = slaves.countP (update live id false) + 1 := by
  have apart : id ∉ slaves.erase id := isLcores.nodup.not_mem_erase
  have same : (slaves.erase id).countP (update live id true) =
      (slaves.erase id).countP (update live id false) := by
    refine countP_congr (fun other isOther => ?_)
    have differs : other ≠ id := fun isId => apart (isId ▸ isOther)
    rw [update_of_ne differs, update_of_ne differs]
  rw [(perm_cons_erase member).countP_eq, (perm_cons_erase member).countP_eq, countP_cons,
    countP_cons, same]
  simp

end

section

variable (sound : IdsSound slaves ids) (isLcores : IsLcores slaves rteGetNextLcore)

include sound isLcores

/-- A thread that is started gets an idle lcore. -/
theorem IdsSound.launched (member : id ∈ slaves) (idle : ids.live id = false) {rest : List Nat}
    {last : Nat} (grown : ids.lastThreadId ≤ last) (below : id ≤ last) (distinct : rest.Nodup)
    (free : ∀ other ∈ rest, other ∈ ids.freeThreadIds ∧ other ≠ id)
    (taken : ∀ other ∈ slaves, other ≤ last → other ≠ id → ids.live other = true ∨ other ∈ rest) :
    IdsSound slaves
      { freeThreadIds := rest, live := update ids.live id true, threadsMax := slaves.length,
        lastThreadId := last, nbThreadIdUsed := ids.nbThreadIdUsed + 1 } where
  lcores other isLive := by
    by_cases isId : other = id
    · rw [isId]
      exact ⟨member, below⟩
    · obtain ⟨isLcore, early⟩ := sound.lcores other (by simpa [isId] using isLive)
      exact ⟨isLcore, Nat.le_trans early grown⟩
  free other isFree := by
    obtain ⟨wasFree, differs⟩ := free other isFree
    obtain ⟨⟨isLcore, early⟩, isIdle⟩ := sound.free other wasFree
    exact ⟨⟨isLcore, Nat.le_trans early grown⟩, by simpa [differs] using isIdle⟩
  distinct := distinct
  taken other isLcore early := by
    by_cases isId : other = id
    · exact .inl (by simp [isId])
    · simpa [isId] using taken other isLcore early isId
  count := by
    rw [isLcores.countP_update member, ← idle, update_eq_self, sound.count]
  max := .inr rfl

/-- Starting a thread takes an idle lcore, unless all of them are busy. -/
theorem IdsSound.init_cases :
    (∃ id ∈ slaves, ids.live id = false ∧
        (pgThreadInit slaves rteGetNextLcore ids).1 = some id ∧
        (pgThreadInit slaves rteGetNextLcore ids).2.nbThreadIdUsed = ids.nbThreadIdUsed + 1 ∧
        IdsSound slaves (pgThreadInit slaves rteGetNextLcore ids).2) ∨
      slaves.countP ids.live = slaves.length ∧
        pgThreadInit slaves rteGetNextLcore ids =
          (none, { ids with threadsMax := slaves.length }) := by
  unfold pgThreadInit
  rw [isLcores.pgThreadMax_eq]
  dsimp only
  cases isFree : ids.freeThreadIds with
  | cons id rest =>
    have distinct := nodup_cons.mp (isFree ▸ sound.distinct)
    obtain ⟨⟨member, early⟩, idle⟩ := sound.free id (by simp [isFree])
    refine .inl ⟨id, member, idle, rfl, rfl, sound.launched isLcores member idle (Nat.le_refl _)
      early distinct.2 (fun other isOther => ?_) (fun other isLcore below differs => ?_)⟩
    · exact ⟨by simp [isFree, isOther], fun isId => distinct.1 (isId ▸ isOther)⟩
    · simpa [isFree, differs] using sound.taken other isLcore below
  | nil =>
    have allTaken (other : Nat) (isLcore : other ∈ slaves) (early : other ≤ ids.lastThreadId) :
        ids.live other = true := by
      simpa [isFree] using sound.taken other isLcore early
    dsimp only
    split
    · rename_i full
      have bound := countP_le_length (p := ids.live) (l := slaves)
      exact .inr ⟨by rw [sound.count] at full; omega, rfl⟩
    · rename_i room
      -- otherwise all lcores were taken and none is free again
      obtain ⟨later, isLater, above⟩ : ∃ id ∈ slaves, ids.lastThreadId < id := by
        by_contra noMore
        have all : slaves.countP ids.live = slaves.length :=
          countP_eq_length.mpr (fun other isLcore => allTaken other isLcore
            (Nat.not_lt.mp (fun late => noMore ⟨other, isLcore, late⟩)))
        rw [sound.count, all] at room
        omega
      obtain ⟨member, late, _⟩ := isLcores.walks _ later isLater above
      have idle : ids.live (rteGetNextLcore ids.lastThreadId) = false := by
        by_contra isLive
        have := (sound.lcores _ (by simpa using isLive)).2
        omega
      refine .inl ⟨_, member, idle, rfl, rfl, sound.launched isLcores member idle
        (Nat.le_of_lt late) (Nat.le_refl _) nodup_nil (fun _ none => absurd none not_mem_nil)
        (fun other isLcore below differs => .inl (allTaken other isLcore ?_))⟩
      by_contra isLate
      have above := (isLcores.walks _ other isLcore (Nat.not_le.mp isLate)).2.2
      exact differs (Nat.le_antisymm below above)

/-- A thread is destroyed if its id is not above the number of lcores. -/
theorem IdsSound.destroy_eq (id : Nat) :
    ((pgThreadDestroy ids id).1 = true ↔ ids.live id = true ∧ id ≤ slaves.length) ∧
      IdsSound slaves (pgThreadDestroy ids id).2 := by
  by_cases isLive : ids.live id = true
  · obtain ⟨member, early⟩ := sound.lcores id isLive
    have one : slaves.countP ids.live = slaves.countP (update ids.live id false) + 1 := by
      rw [← isLcores.countP_update member, ← isLive, update_eq_self]
    have isMax : ids.threadsMax = slaves.length :=
      sound.max.resolve_left (by rw [sound.count]; omega)
    unfold pgThreadDestroy
    rw [isMax]
    split
    · rename_i refused
      have above : slaves.length < id := by simpa [isLive] using refused
      exact ⟨by simp [Nat.not_le.mpr above], sound⟩
    · rename_i allowed
      have below : id ≤ slaves.length := by simpa [isLive] using allowed
      dsimp only
      split
      · rename_i noneLeft
        have empty : slaves.countP (update ids.live id false) = 0 := by
          rw [sound.count] at noneLeft
          omega
        have idle (other : Nat) : update ids.live id false other = false := by
          by_contra isBusy
          have busy : update ids.live id false other = true := by simpa using isBusy
          have differs : other ≠ id := by
            rintro rfl
            simp at busy
          have wasLive : ids.live other = true := by simpa [differs] using busy
          exact countP_eq_zero.mp empty other (sound.lcores other wasLive).1 busy
        refine ⟨by simp [isLive, below], ⟨fun other isBusy => ?_, by simp, nodup_nil,
          fun other isLcore first => ?_, by simp [noneLeft, empty], .inl noneLeft⟩⟩
        · simp [idle] at isBusy
        · have := (isLcores.inRange other isLcore).1
          dsimp only at first
          omega
      · refine ⟨by simp [isLive, below], ⟨fun other isBusy => ?_, fun other isFree => ?_, ?_,
          fun other isLcore first => ?_, ?_, .inr rfl⟩⟩
        · have differs : other ≠ id := by
            rintro rfl
            simp at isBusy
          exact sound.lcores other (by simpa [differs] using isBusy)
        · rcases mem_cons.mp isFree with rfl | isFree
          · exact ⟨⟨member, early⟩, by simp⟩
          · obtain ⟨isLcore, isIdle⟩ := sound.free other isFree
            exact ⟨isLcore, by by_cases isId : other = id <;> simp [isId, isIdle]⟩
        · refine nodup_cons.mpr ⟨fun isFree => ?_, sound.distinct⟩
          simp [(sound.free id isFree).2] at isLive
        · by_cases isId : other = id
          · simp [isId]
          · simpa [isId] using sound.taken other isLcore first
        · rw [sound.count, one, Nat.add_sub_cancel]
  · have refused : pgThreadDestroy ids id = (false, ids) := by simp [pgThreadDestroy, isLive]
    rw [refused]
    exact ⟨by simp [isLive], sound⟩

end

/-- What holds of the ids holds after any calls. -/
theorem IsLcores.after (isLcores : IsLcores slaves rteGetNextLcore) (calls : List ThreadIdCall) :
    IdsSound slaves (idsAfter slaves rteGetNextLcore calls) := by
  induction calls using List.reverseRecOn with
  | nil =>
    exact ⟨by simp [idsAfter, ThreadIds.start], by simp [idsAfter, ThreadIds.start], nodup_nil,
      fun id member first => absurd first (Nat.not_le.mpr (isLcores.inRange id member).1),
      by simp [idsAfter, ThreadIds.start], .inl rfl⟩
  | append_singleton calls call ih =>
    rw [idsAfter, foldl_concat]
    cases call with
    | init =>
      rcases ih.init_cases isLcores with ⟨_, _, _, _, _, after⟩ | ⟨_, refused⟩
      · exact after
      · simp only [ThreadIds.exec]
        exact refused ▸ { ih with max := .inr rfl }
    | destroy id => exact (ih.destroy_eq isLcores id).2

/-- With `n` calls of `pg_thread_init` there are `n` threads, as long as there are lcores. -/
theorem IsLcores.started (isLcores : IsLcores slaves rteGetNextLcore) :
    ∀ n ≤ slaves.length,
      slaves.countP (idsAfter slaves rteGetNextLcore (replicate n .init)).live = n
  | 0, _ => by simp [idsAfter, ThreadIds.start]
  | n + 1, below => by
    have ih := isLcores.started n (by omega)
    have sound := isLcores.after (replicate n .init)
    rcases sound.init_cases isLcores with ⟨_, _, _, _, more, after⟩ | ⟨full, _⟩
    · rw [replicate_succ', idsAfter, foldl_concat, ← idsAfter]
      refine after.count.symm.trans ?_
      rw [more, sound.count, ih]
    · omega

end Facts

/-- The ids are right in every run iff no slave lcore has a number above how many there are. -/
theorem thread_ids_right_iff {slaves : List Nat} {rteGetNextLcore : Nat → Nat}
    (isLcores : IsLcores slaves rteGetNextLcore) :
    (∀ calls, IdsRight slaves rteGetNextLcore (idsAfter slaves rteGetNextLcore calls)) ↔
      ∀ id ∈ slaves, id ≤ slaves.length := by
  constructor
  · intro right id member
    have all := isLcores.started slaves.length (Nat.le_refl _)
    have isLive := countP_eq_length.mp all id member
    have destroyed := ((right (replicate slaves.length .init)).destroy id
      (isLcores.inRange id member).2).mpr isLive
    exact (((isLcores.after _).destroy_eq isLcores id).1.mp destroyed).2
  · intro noGaps calls
    have sound := isLcores.after calls
    refine ⟨fun id isLive => (sound.lcores id isLive).1, fun id isId => ?_, sound.count, ?_,
      fun id _ => ?_, sound.distinct, fun id isFree => (sound.free id isFree).2⟩
    · rcases sound.init_cases isLcores with ⟨other, member, idle, isOther, _, _⟩ | ⟨_, refused⟩
      · rw [isOther, Option.some.injEq] at isId
        exact isId ▸ ⟨idle, member⟩
      · simp [refused] at isId
    · rw [isLcores.pgThreadMax_eq]
      rcases sound.init_cases isLcores with ⟨id, member, idle, isId, _, _⟩ | ⟨full, refused⟩
      · have bound :=
          countP_le_length (p := (idsAfter slaves rteGetNextLcore calls).live) (l := slaves)
        have notAll :
            slaves.countP (idsAfter slaves rteGetNextLcore calls).live ≠ slaves.length :=
          fun all => by simp [countP_eq_length.mp all id member] at idle
        simp only [isId, Option.isSome_some, true_iff]
        omega
      · simp [refused, full]
    · rw [(sound.destroy_eq isLcores id).1]
      exact and_iff_left_of_imp (fun isLive => noGaps id (sound.lcores id isLive).1)

/-- The next of some lcores, found by a scan. -/
def scanLcores (slaves : List Nat) (i : Nat) : Nat :=
  (slaves.find? (i < ·)).getD 128

/-- In increasing order, the scan gives the next lcore. -/
theorem scanLcores_walks {slaves : List Nat} (increasing : slaves.Pairwise (· < ·)) {i id : Nat}
    (member : id ∈ slaves) (later : i < id) :
    scanLcores slaves i ∈ slaves ∧ i < scanLcores slaves i ∧ scanLcores slaves i ≤ id := by
  unfold scanLcores
  cases isNext : slaves.find? (i < ·) with
  | none => exact absurd later (by simpa using find?_eq_none.mp isNext id member)
  | some next =>
    obtain ⟨isLate, front, back, isSplit, early⟩ := find?_eq_some_iff_append.mp isNext
    refine ⟨mem_of_find?_eq_some isNext, by simpa using isLate, ?_⟩
    rw [isSplit] at member increasing
    rcases mem_append.mp member with inFront | inBack
    · exact absurd later (by simpa using early id inFront)
    · rcases mem_cons.mp inBack with rfl | behind
      · exact Nat.le_refl _
      · exact Nat.le_of_lt
          ((pairwise_cons.mp (pairwise_append.mp increasing).2.1).1 id behind)

/-- Two slave lcores without gaps. -/
theorem thread_ids_right_two :
    IsLcores [1, 2] (scanLcores [1, 2]) ∧
      ∀ calls, IdsRight [1, 2] (scanLcores [1, 2]) (idsAfter [1, 2] (scanLcores [1, 2]) calls) := by
  have isLcores : IsLcores [1, 2] (scanLcores [1, 2]) :=
    ⟨by decide, by decide, fun _ _ => scanLcores_walks (by decide)⟩
  exact ⟨isLcores, (thread_ids_right_iff isLcores).mpr (by decide)⟩

/-- With the lcores 0, 1 and 3, the thread on lcore 3 cannot be destroyed. -/
theorem live_thread_not_destroyed :
    let ids := idsAfter [1, 3] (scanLcores [1, 3]) [.init, .init]
    IsLcores [1, 3] (scanLcores [1, 3]) ∧ ids.live 3 = true ∧
      (pgThreadDestroy ids 3).1 = false :=
  ⟨⟨by decide, by decide, fun _ _ => scanLcores_walks (by decide)⟩, by decide, by decide⟩

end PacketGraph
