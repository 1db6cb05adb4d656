import Mathlib

namespace Retry

open List

/-!
# Tasks that are tried again

A task asks for a number of grants from a stream of answers.  An attempt takes
answers until it has all its grants or one is refused.  A refusal of the first
one ends the task, and a later refusal starts it again with the answers that
follow.
-/

variable {answers : Nat → Bool}

/-- The answers that are left after some were taken. -/
def later (answers : Nat → Bool) (taken : Nat) : Nat → Bool :=
  fun call => answers (taken + call)

/-- The first refusal among the next answers. -/
def firstRefusal (need : Nat) (answers : Nat → Bool) : Option Nat :=
  (List.range need).find? (fun call => !answers call)

variable {need : Nat}

theorem firstRefusal_eq_none_iff :
    firstRefusal need answers = none ↔ ∀ call < need, answers call = true := by
  unfold firstRefusal
  rw [find?_eq_none]
  simp

theorem firstRefusal_eq_some_iff {call : Nat} :
    firstRefusal need answers = some call ↔ call < need ∧ answers call = false ∧
        ∀ earlier < call, answers earlier = true := by
  unfold firstRefusal
  rw [find?_range_eq_some]
  simp only [Bool.not_eq_eq_eq_not, Bool.not_true, mem_range, Bool.not_not]
  tauto

/-- The first refusal for two needs, one after the other. -/
theorem firstRefusal_add (first second : Nat) (answers : Nat → Bool) :
    firstRefusal (first + second) answers = match firstRefusal first answers with
      | some call => some call
      | none =>
        (firstRefusal second (later answers first)).map (first + ·) := by
  unfold firstRefusal later
  rw [range_add, find?_append, find?_map]
  cases (List.range first).find? (fun call => !answers call) <;> rfl

/-- Try a task at most as often as given; it ends with or without success. -/
def attempts (need : Nat) : Nat → (Nat → Bool) → Option Bool
  | 0, _ => none
  | tries + 1, answers =>
    if answers 0 then
      match firstRefusal need (later answers 1) with
      | none => some true
      | some call => attempts need tries (later answers (1 + (call + 1)))
    else
      some false

/-- The next answer is a refusal, or all that an attempt takes are grants. -/
def Settles (need : Nat) (answers : Nat → Bool) : Prop :=
  answers 0 = false ∨ ∀ grant ≤ need, answers grant = true

/-- After some refusal, the next attempt is the last one. -/
def Relents (need : Nat) (answers : Nat → Bool) : Prop :=
  ∃ call, answers call = false ∧ Settles need (later answers (call + 1))

theorem later_later (answers : Nat → Bool) (first second : Nat) :
    later (later answers first) second = later answers (first + second) := by
  funext call
  simp [later, Nat.add_assoc]

/-- One attempt ends the task, or starts it again behind a refusal. -/
theorem attempts_succ (need : Nat) (answers : Nat → Bool) :
    Settles need answers ∧ (∀ tries, (attempts need (tries + 1) answers).isSome = true) ∨
      ¬ Settles need answers ∧ ∃ call, answers call = false ∧
            (∀ earlier < call, answers earlier = true) ∧
            ∀ tries, attempts need (tries + 1) answers =
                attempts need tries (later answers (call + 1)) := by
  unfold Settles
  cases start : answers 0 with
  | false =>
    refine .inl ⟨.inl rfl, fun tries => ?_⟩
    rw [attempts, start]
    rfl
  | true =>
    cases isFirst : firstRefusal need (later answers 1) with
    | none =>
      have granted := firstRefusal_eq_none_iff.mp isFirst
      refine .inl ⟨.inr (fun grant inside => ?_), fun tries => ?_⟩
      · cases grant with
        | zero => exact start
        | succ grant =>
          have answer := granted grant inside
          unfold later at answer
          rw [Nat.add_comm]
          exact answer
      · rw [attempts, if_pos start, isFirst]
        rfl
    | some call =>
      obtain ⟨inside, refused, earlier⟩ := firstRefusal_eq_some_iff.mp isFirst
      have granted : ∀ early < 1 + call, answers early = true := by
        intro early before
        cases early with
        | zero => exact start
        | succ early =>
          have answer := earlier early (by omega)
          unfold later at answer
          rw [Nat.add_comm]
          exact answer
      refine .inr ⟨?_, 1 + call, refused, granted, fun tries => ?_⟩
      · rintro (never | always)
        · cases never
        · have answer := always (1 + call) (by omega)
          unfold later at refused
          rw [refused] at answer
          cases answer
      · rw [attempts, if_pos start, isFirst]
        rfl

/-- After the first refusal, answers relent at once or later. -/
theorem relents_iff_of_first {call : Nat} (refused : answers call = false)
    (earlier : ∀ early < call, answers early = true) :
    Relents need answers ↔ Settles need (later answers (call + 1)) ∨
        Relents need (later answers (call + 1)) := by
  constructor
  · rintro ⟨place, refusedAt, settles⟩
    have ahead : call ≤ place := by
      by_contra before
      rw [earlier place (by omega)] at refusedAt
      cases refusedAt
    rcases Nat.lt_or_eq_of_le ahead with before | rfl
    · have isPlace : call + 1 + (place - (call + 1)) = place := by omega
      refine .inr ⟨place - (call + 1), ?_, ?_⟩
      · unfold later
        rw [isPlace]
        exact refusedAt
      · rw [later_later, ← Nat.add_assoc, isPlace]
        exact settles
    · exact .inl settles
  · rintro (settles | ⟨next, refusedNext, settles⟩)
    · exact ⟨call, refused, settles⟩
    · refine ⟨call + 1 + next, refusedNext, ?_⟩
      rw [later_later] at settles
      exact settles

/-- A task that ends has met answers that relent. -/
theorem relents_of_attempts {tries : Nat} (ends : (attempts need tries answers).isSome = true) :
    Settles need answers ∨ Relents need answers := by
  induction tries generalizing answers with
  | zero => cases ends
  | succ tries ih =>
    rcases attempts_succ need answers with
      ⟨settles, _⟩ | ⟨_, call, refused, earlier, again⟩
    · exact .inl settles
    · rw [again] at ends
      exact .inr ((relents_iff_of_first refused earlier).mpr (ih ends))

/-- A task ends when the answers relent. -/
theorem attempts_of_relents (relents : Relents need answers) :
    ∃ tries, (attempts need tries answers).isSome = true := by
  obtain ⟨place, refused, settles⟩ := relents
  induction place using Nat.strong_induction_on generalizing answers with
  | _ place ih =>
    rcases attempts_succ need answers with
      ⟨_, ends⟩ | ⟨_, call, refusedFirst, earlier, again⟩
    · exact ⟨1, ends 0⟩
    · have ahead : call ≤ place := by
        by_contra before
        rw [earlier place (by omega)] at refused
        cases refused
      rcases Nat.lt_or_eq_of_le ahead with before | rfl
      · -- the refusal that relents is behind the one of this attempt
        have isPlace : call + 1 + (place - (call + 1)) = place := by omega
        obtain ⟨tries, ends⟩ :=
          ih (place - (call + 1)) (by omega)
            (show answers (call + 1 + (place - (call + 1))) = false by
              rw [isPlace]
              exact refused)
            (by
              rw [later_later, ← Nat.add_assoc, isPlace]
              exact settles)
        exact ⟨tries + 1, by rw [again]; exact ends⟩
      · rcases attempts_succ need (later answers (call + 1)) with
          ⟨_, ends⟩ | ⟨notSettles, _⟩
        · exact ⟨2, by rw [again]; exact ends 0⟩
        · exact absurd settles notSettles

/-- A task ends exactly if its answers relent at the start or later. -/
theorem attempts_end_iff (need : Nat) (answers : Nat → Bool) :
    (∃ tries, (attempts need tries answers).isSome = true) ↔
      Settles need answers ∨ Relents need answers := by
  constructor
  · rintro ⟨tries, ends⟩
    exact relents_of_attempts ends
  · rintro (settles | relents)
    · rcases attempts_succ need answers with ⟨_, ends⟩ | ⟨notSettles, _⟩
      · exact ⟨1, ends 0⟩
      · exact absurd settles notSettles
    · exact attempts_of_relents relents

end Retry
