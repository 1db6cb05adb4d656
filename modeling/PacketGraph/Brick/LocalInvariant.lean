import PacketGraph.Brick.LinkSafety

namespace PacketGraph

open Function

/-!
# Properties of single bricks over linking calls

A property that relates one brick to its private state is kept by every
linking call when it is kept at a brick that gains a link, at a brick that is
notified of a breaking link, and at a brick that loses it after it was
notified without an error.
-/

variable {ι σ : Type}

/-- A property of one brick is kept when it gains a link. -/
def KeptByAttach (property : Brick ι → σ → Prop) : Prop :=
  ∀ (brick : Brick ι) (priv : σ) (side : Side) (index : Nat) (target : ι) (pairIndex : Nat),
    property brick priv → FreeSlot brick side index →
    property (attach brick side index target pairIndex) priv

/-- A property of one brick is kept when a link of it breaks. -/
structure KeptByUnlink (ops : BrickOps ι σ) (property : Brick ι → σ → Prop) : Prop where
  notified : ∀ {brick : Brick ι} {priv : σ} {side : Side} {index : Nat} {link : ι × Nat},
      property brick priv → brick.linkAt side index = some link →
      property brick (ops.unlinkNotify brick priv side index).1
  detached : ∀ {brick : Brick ι} {priv : σ} {side : Side} {index : Nat} {link : ι × Nat},
      property brick priv → brick.linkAt side index = some link →
      (ops.unlinkNotify brick priv side index).2 = none → property (detach brick side index)
        (ops.unlinkNotify brick priv side index).1

/-- A property holds of every brick of a graph and its private state. -/
def Everywhere (property : Brick ι → σ → Prop) (graph : Graph ι σ) : Prop :=
  ∀ brick, property (graph.brick brick) (graph.priv brick)

variable [DecidableEq ι]

variable {property : Brick ι → σ → Prop} {graph : Graph ι σ}

/-- Joining two free edges keeps a local property. -/
theorem Everywhere.joinStep (attach_ok : KeptByAttach property) {after : Graph ι σ}
    (holds : Everywhere property graph) (step : JoinStep graph after) :
    Everywhere property after := by
  cases step with
  | @join west east westIndex eastIndex distinct _ _ westFree eastFree =>
    intro brick
    simp only [joinLink]
    by_cases isWest : brick = west
    · subst isWest
      rw [update_self]
      exact attach_ok _ _ _ _ _ _ (holds brick) westFree
    · rw [update_of_ne isWest]
      by_cases isEast : brick = east
      · subst isEast
        rw [update_self]
        exact attach_ok _ _ _ _ _ _ (holds brick) eastFree
      · rw [update_of_ne isEast]
        exact holds brick

/-- Notifying a linked brick keeps a local property. -/
theorem Everywhere.notify {ops : BrickOps ι σ} (unlink_ok : KeptByUnlink ops property)
    (holds : Everywhere property graph) {notified : ι} {side : Side} {index : Nat}
    {link : ι × Nat} (linked : (graph.brick notified).linkAt side index = some link) :
    Everywhere property (notify ops graph notified side index).1 := by
  intro brick
  unfold PacketGraph.notify
  by_cases here : brick = notified
  · subst here
    simp only [update_self]
    exact unlink_ok.notified (holds brick) linked
  · simp only [update_of_ne here]
    exact holds brick

/-- Any number of joins keeps a local property. -/
theorem Everywhere.joinSteps (attach_ok : KeptByAttach property) {after : Graph ι σ}
    (holds : Everywhere property graph) (steps : Relation.ReflTransGen JoinStep graph after) :
    Everywhere property after := by
  induction steps with
  | refl => exact holds
  | tail _ step ih => exact ih.joinStep attach_ok step

section Unlink

variable [Fintype ι] {ops : BrickOps ι σ} {property : Brick ι → σ → Prop}

variable {graph : Graph ι σ} {outcome : Option PgError}

/-- Breaking a link keeps a local property. -/
theorem Everywhere.breakLink (unlink_ok : KeptByUnlink ops property) {after : Graph ι σ}
    (invariant : LinkInvariant graph.brick) (holds : Everywhere property graph) {target : ι}
    {side : Side} {index : Nat} {paired : ι} {pairIndex : Nat}
    (linked : (graph.brick target).linkAt side index = some (paired, pairIndex))
    (broken :
      PacketGraph.breakLink ops graph target side index paired pairIndex = .ok (outcome, after)) :
    Everywhere property after := by
  have back := invariant.back linked
  have distinct := invariant.ne_of_linkAt linked
  have afterFirst := holds.notify unlink_ok back
  have afterSecond := afterFirst.notify unlink_ok linked
  unfold PacketGraph.breakLink at broken
  split at broken
  · rename_i first isFirst
    cases broken
    rw [isFirst] at afterFirst
    exact afterFirst
  · rename_i first isFirst
    rw [isFirst] at afterSecond
    split at broken
    · rename_i second isSecond
      cases broken
      rw [isSecond] at afterSecond
      exact afterSecond
    · rename_i second isSecond
      cases broken
      have isFirstGraph := congrArg Prod.fst isFirst
      have isSecondGraph := congrArg Prod.fst isSecond
      have firstQuiet := congrArg Prod.snd isFirst
      have secondQuiet := congrArg Prod.snd isSecond
      simp only at isFirstGraph isSecondGraph
      subst isFirstGraph
      subst isSecondGraph
      intro brick
      simp only [cutLink, PacketGraph.notify]
      by_cases isPaired : brick = paired
      · subst isPaired
        simp only [update_self, update_of_ne (Ne.symm distinct)]
        exact unlink_ok.detached (holds brick) back firstQuiet
      · by_cases isTarget : brick = target
        · subst isTarget
          simp only [update_self, update_of_ne isPaired]
          simp only [PacketGraph.notify, update_of_ne distinct] at secondQuiet
          exact unlink_ok.detached (holds brick) linked secondQuiet
        · simp only [update_of_ne isPaired, update_of_ne isTarget]
          exact holds brick

section

variable (attach_ok : KeptByAttach property) (unlink_ok : KeptByUnlink ops property)
  (invariant : LinkInvariant graph.brick) (holds : Everywhere property graph)

include attach_ok unlink_ok invariant holds

/-- Any number of elementary changes keeps a local property. -/
theorem Everywhere.linkSteps {after : Graph ι σ}
    (steps : Relation.ReflTransGen (LinkStep ops) graph after) :
    LinkInvariant after.brick ∧ Everywhere property after := by
  induction steps with
  | refl => exact ⟨invariant, holds⟩
  | tail _ step ih =>
    obtain ⟨linkedBefore, holdsBefore⟩ := ih
    refine ⟨linkedBefore.step step, ?_⟩
    cases step with
    | joined joined => exact holdsBefore.joinStep attach_ok joined
    | broken linked broken => exact holdsBefore.breakLink unlink_ok linkedBefore linked broken

/-- A linking call keeps the link invariant and a local property. -/
theorem Everywhere.exec {after : Graph ι σ} {call : LinkCall ι}
    (executed : call.exec ops graph = .ok (outcome, after)) :
    LinkInvariant after.brick ∧ Everywhere property after := by
  obtain ⟨_, left, returned, steps⟩ := call.exec_returns ops invariant
  rw [executed] at returned
  simp only [Except.ok.injEq, Prod.mk.injEq] at returned
  rw [returned.2]
  exact holds.linkSteps attach_ok unlink_ok invariant steps

end

/-- Linking calls relate private states as notifications do. -/
theorem LinkCall.exec_priv {relation : σ → σ → Prop} (reflexive : ∀ priv, relation priv priv)
    (transitive :
      ∀ {first second third}, relation first second → relation second third → relation first third)
    (notified : ∀ brick priv side index, relation priv (ops.unlinkNotify brick priv side index).1)
    {after : Graph ι σ} (invariant : LinkInvariant graph.brick) {call : LinkCall ι}
    (executed : call.exec ops graph = .ok (outcome, after)) (target : ι) :
    relation (graph.priv target) (after.priv target) := by
  have notifies (before : Graph ι σ) (brick : ι) (side : Side) (index : Nat) :
      relation (before.priv target) ((notify ops before brick side index).1.priv target) := by
    unfold notify
    by_cases here : target = brick
    · subst here
      simp only [update_self]
      exact notified _ _ _ _
    · simp only [update_of_ne here]
      exact reflexive _
  obtain ⟨_, left, returned, steps⟩ := call.exec_returns ops invariant
  rw [executed] at returned
  simp only [Except.ok.injEq, Prod.mk.injEq] at returned
  rw [returned.2]
  clear executed returned
  induction steps with
  | refl => exact reflexive _
  | @tail middle last _ step ih =>
    refine transitive ih ?_
    cases step with
    | joined joined =>
      cases joined
      exact reflexive _
    | @broken _ broken side index paired pairIndex _ ran =>
      have first := notifies middle paired (pgFlipSide side) pairIndex
      unfold PacketGraph.breakLink at ran
      split at ran
      · rename_i left isFirst
        cases ran
        rw [isFirst] at first
        exact first
      · rename_i left isFirst
        rw [isFirst] at first
        have second := notifies left broken side index
        split at ran
        · rename_i last isSecond
          cases ran
          rw [isSecond] at second
          exact transitive first second
        · rename_i last isSecond
          cases ran
          rw [isSecond] at second
          exact transitive first second

end Unlink

end PacketGraph
