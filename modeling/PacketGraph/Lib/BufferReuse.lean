import PacketGraph.Lib.Reachability

namespace BufferReuse

open List TransitionSystem

/-!
# Reusing buffers that were lent

An owner has some buffers.  It writes them and sends references to them into a
queue, from which a reader takes them later, passes them on and gives them
back.  The owner may use the same buffers again at any time: nothing but its
schedule keeps it from changing what the reader will pass on.

What the owner does in one call is a list of actions, computed from the
contents of its buffers when the call starts.  The reader may act between any
two of them.  Beside the program state there is a history of the reference
counts that writes met and of the contents that were sent and passed on.
-/

/-- An action of the owner. -/
inductive Action (β : Type) where
  | write (place : Nat) (content : β)
  | send (places : List Nat)

/-- References to some buffers, with their contents when they were sent. -/
structure Loan (β : Type) where
  places : List Nat
  sent : List β

/-- Where the reader is. -/
inductive Reader (β : Type) where
  | idle
  | took (loan : Loan β)
  | passed (loan : Loan β)

/-- The owner's buffers, the queue and the reader, with their history. -/
structure State (β : Type) where
  contents : Nat → β
  refs : Nat → Nat
  queue : List (Loan β)
  todo : List (Action β)
  reader : Reader β
  /-- The reference counts that the writes met. -/
  met : List Nat
  /-- The contents when sent and when passed on. -/
  passedOn : List (List β × List β)

/-- A step of the owner or of the reader. -/
inductive Label (Call : Type) where
  | call (call : Call)
  | act
  | take
  | pass
  | giveBack

variable {β Call : Type}

/-- One reference more to each place of a list. -/
def lend (refs : Nat → Nat) (places : List Nat) : Nat → Nat :=
  fun place => refs place + places.count place

/-- One reference less to each place of a list. -/
def unlend (refs : Nat → Nat) (places : List Nat) : Nat → Nat :=
  fun place => refs place - places.count place

/-- Make room in a queue that is full, giving its oldest loan back. -/
def makeRoom (full : Nat → Bool) (queue : List (Loan β)) (refs : Nat → Nat) :
    List (Loan β) × (Nat → Nat) :=
  match full queue.length, queue with
  | true, oldest :: rest => (rest, unlend refs oldest.places)
  | _, _ => (queue, refs)

/-- Execute the next action of the owner. -/
def act (full : Nat → Bool) (state : State β) : Option (State β) :=
  match state.todo with
  | [] => none
  | .write place content :: rest =>
    some { state with
        contents := Function.update state.contents place content
        todo := rest
        met := state.met ++ [state.refs place] }
  | .send places :: rest =>
    let roomy := makeRoom full state.queue state.refs
    some { state with
        refs := lend roomy.2 places
        queue :=
          roomy.1 ++ [{ places := places, sent := places.map state.contents }]
        todo := rest }

/-- The step of a label. -/
def step (full : Nat → Bool) (program : Call → (Nat → β) → List (Action β)) (state : State β)
    : Label Call → Option (State β)
  | .call call =>
    match state.todo with
    | [] => some { state with todo := program call state.contents }
    | _ => none
  | .act => act full state
  | .take =>
    match state.reader, state.queue with
    | .idle, [] => some state
    | .idle, loan :: rest => some { state with queue := rest, reader := .took loan }
    | _, _ => none
  | .pass =>
    match state.reader with
    | .took loan =>
      some { state with
          reader := .passed loan
          passedOn :=
            state.passedOn ++ [(loan.sent, loan.places.map state.contents)] }
    | _ => none
  | .giveBack =>
    match state.reader with
    | .passed loan =>
      some { state with reader := .idle, refs := unlend state.refs loan.places }
    | _ => none

/-- Only the owner has references and nothing was done yet. -/
def start (contents : Nat → β) : State β where
  contents := contents
  refs := fun _ => 1
  queue := []
  todo := []
  reader := .idle
  met := []
  passedOn := []

/-- The runs of an owner and a reader. -/
def system (full : Nat → Bool) (program : Call → (Nat → β) → List (Action β)) :
    System (State β) (Label Call) :=
  .ofStep (fun state => ∃ contents, state = start contents) (step full program)

/-- What the reader has out of the queue. -/
def Reader.loans : Reader β → List (Loan β)
  | .idle => []
  | .took loan => [loan]
  | .passed loan => [loan]

/-- All loans that were not given back. -/
def State.loans (state : State β) : List (Loan β) :=
  state.reader.loans ++ state.queue

/-- No loan refers to a buffer of the owner. -/
def State.Returned (state : State β) : Prop :=
  ∀ loan ∈ state.loans, loan.places = []

/-- Nothing that was passed on had changed, and no write met a lent buffer. -/
structure Undisturbed (state : State β) : Prop where
  same : ∀ contents ∈ state.passedOn, contents.1 = contents.2
  unshared : ∀ count ∈ state.met, count = 1

/-- Writes, with at most one sending, at the end. -/
def WritesThenSends : List (Action β) → Prop
  | [] => True
  | .write _ _ :: rest => WritesThenSends rest
  | .send _ :: rest => rest = []

/-- Some action is a write. -/
def Writes : List (Action β) → Prop
  | [] => False
  | .write _ _ :: _ => True
  | .send _ :: rest => Writes rest

/-- A call writes before it sends, and only while no buffer is lent. -/
def Careful (program : Call → (Nat → β) → List (Action β)) (state : State β) : Label Call → Prop
  | .call call =>
    WritesThenSends (program call state.contents) ∧
      (Writes (program call state.contents) → state.Returned)
  | _ => True

section Safety

/-- The number of references that some loans have to a place. -/
def lentTo (loans : List (Loan β)) (place : Nat) : Nat :=
  (loans.map (fun loan => loan.places.count place)).sum

@[simp] theorem lentTo_cons (loan : Loan β) (loans : List (Loan β)) (place : Nat) :
    lentTo (loan :: loans) place = loan.places.count place + lentTo loans place :=
  rfl

@[simp] theorem lentTo_append (loans more : List (Loan β)) (place : Nat) :
    lentTo (loans ++ more) place = lentTo loans place + lentTo more place := by
  simp [lentTo]

/-- References to no place. -/
theorem lentTo_eq_zero {loans : List (Loan β)} (empty : ∀ loan ∈ loans, loan.places = [])
    (place : Nat) : lentTo loans place = 0 := by
  induction loans with
  | nil => rfl
  | cons loan rest ih =>
    rw [lentTo_cons, empty loan mem_cons_self, ih
        (fun other member => empty other (mem_cons_of_mem _ member))]
    rfl

/-- Loans are as they were sent, and writes are only left while none is out. -/
structure Sound (state : State β) : Prop where
  undisturbed : Undisturbed state
  intact : ∀ loan ∈ state.loans, loan.places.map state.contents = loan.sent
  counted : ∀ place, state.refs place = 1 + lentTo state.loans place
  shape : WritesThenSends state.todo
  alone : Writes state.todo → state.Returned

theorem start_sound (contents : Nat → β) : Sound (start contents) where
  undisturbed :=
    { same := fun _ member => absurd member not_mem_nil
      unshared := fun _ member => absurd member not_mem_nil }
  intact := fun _ member => absurd member not_mem_nil
  counted := fun _ => rfl
  shape := trivial
  alone := fun writes => absurd writes id

variable {full : Nat → Bool} {state after : State β}

/-- Moving a loan from the queue to the reader keeps a state sound. -/
theorem Sound.of_sameLoans (sound : Sound state) (undisturbed : Undisturbed after)
    (sameLoans : after.loans = state.loans) (sameContents : after.contents = state.contents)
    (sameRefs : after.refs = state.refs) (sameTodo : after.todo = state.todo) : Sound after where
  undisturbed := undisturbed
  intact := by
    rw [sameLoans, sameContents]
    exact sound.intact
  counted := by
    rw [sameLoans, sameRefs]
    exact sound.counted
  shape := by
    rw [sameTodo]
    exact sound.shape
  alone := by
    unfold State.Returned
    rw [sameLoans, sameTodo]
    exact sound.alone

/-- Making room gives at most one loan back. -/
theorem makeRoom_spec (full : Nat → Bool) (queue : List (Loan β)) (refs : Nat → Nat) :
    makeRoom full queue refs = (queue, refs) ∨ ∃ oldest rest, queue = oldest :: rest ∧
          makeRoom full queue refs = (rest, unlend refs oldest.places) := by
  unfold makeRoom
  split
  · exact .inr ⟨_, _, rfl, rfl⟩
  · exact .inl rfl

/-- The owner's actions keep the loans as they were sent. -/
theorem Sound.act (sound : Sound state) (acted : act full state = some after) : Sound after := by
  unfold BufferReuse.act at acted
  split at acted
  · exact absurd acted (by simp)
  · rename_i place content rest isTodo
    cases acted
    have shape := sound.shape
    rw [isTodo] at shape
    have returned : state.Returned := by
      refine sound.alone ?_
      rw [isTodo]
      exact trivial
    refine ⟨⟨sound.undisturbed.same, ?_⟩, ?_, sound.counted, shape, fun _ => returned⟩
    · intro count member
      rcases mem_append.mp member with earlier | now
      · exact sound.undisturbed.unshared count earlier
      · rw [mem_singleton.mp now, sound.counted, lentTo_eq_zero returned]
    · intro loan member
      have isEmpty : loan.places = [] := returned loan member
      have before := sound.intact loan member
      rw [isEmpty] at before ⊢
      exact before
  · rename_i places rest isTodo
    cases acted
    have shape := sound.shape
    rw [isTodo] at shape
    have nothingLeft : rest = [] := shape
    subst nothingLeft
    refine ⟨⟨sound.undisturbed.same, sound.undisturbed.unshared⟩, ?_, ?_,
      trivial, fun writes => absurd writes id⟩
    · intro loan member
      simp only [State.loans, mem_append, mem_singleton] at member
      rcases member with reading | waiting | new
      · exact sound.intact loan (mem_append_left _ reading)
      · refine sound.intact loan (mem_append_right _ ?_)
        rcases makeRoom_spec full state.queue state.refs with
          kept | ⟨oldest, others, isQueue, dropped⟩
        · rwa [kept] at waiting
        · rw [dropped] at waiting
          rw [isQueue]
          exact mem_cons_of_mem _ waiting
      · rw [new]
    · intro place
      have before := sound.counted place
      simp only [State.loans, lentTo_append, lentTo_cons, lend] at before ⊢
      rcases makeRoom_spec full state.queue state.refs with
        kept | ⟨oldest, others, isQueue, dropped⟩
      · rw [kept]
        simp only [lentTo, map_nil, sum_nil]
        simp only [lentTo] at before
        omega
      · rw [dropped]
        rw [isQueue, lentTo_cons] at before
        simp only [unlend, lentTo, map_nil, sum_nil]
        simp only [lentTo] at before
        omega

variable {program : Call → (Nat → β) → List (Action β)}

/-- Every careful step keeps the loans as they were sent. -/
theorem Sound.step {label : Label Call}
    (sound : Sound state) (careful : Careful program state label)
    (stepped : step full program state label = some after) : Sound after := by
  cases label with
  | call call =>
    simp only [BufferReuse.step] at stepped
    split at stepped
    · cases stepped
      exact ⟨⟨sound.undisturbed.same, sound.undisturbed.unshared⟩,
        sound.intact, sound.counted, careful.1, careful.2⟩
    · exact absurd stepped (by simp)
  | act => exact sound.act stepped
  | take =>
    simp only [BufferReuse.step] at stepped
    split at stepped
    · cases stepped
      exact sound
    · rename_i loan rest isReader isQueue
      cases stepped
      refine sound.of_sameLoans ⟨sound.undisturbed.same, sound.undisturbed.unshared⟩ ?_ rfl rfl rfl
      simp [State.loans, isReader, isQueue, Reader.loans]
    · exact absurd stepped (by simp)
  | pass =>
    simp only [BufferReuse.step] at stepped
    split at stepped
    · rename_i loan isReader
      cases stepped
      have loans : state.loans = loan :: state.queue := by
        simp [State.loans, isReader, Reader.loans]
      refine sound.of_sameLoans ⟨?_, sound.undisturbed.unshared⟩ loans.symm rfl rfl rfl
      intro contents member
      rcases mem_append.mp member with earlier | now
      · exact sound.undisturbed.same contents earlier
      · rw [mem_singleton.mp now]
        refine (sound.intact loan ?_).symm
        rw [loans]
        exact mem_cons_self
    · exact absurd stepped (by simp)
  | giveBack =>
    simp only [BufferReuse.step] at stepped
    split at stepped
    · rename_i loan isReader
      cases stepped
      have loans : state.loans = loan :: state.queue := by
        simp [State.loans, isReader, Reader.loans]
      refine ⟨⟨sound.undisturbed.same, sound.undisturbed.unshared⟩, ?_, ?_, sound.shape, ?_⟩
      · intro other member
        refine sound.intact other ?_
        rw [loans]
        exact mem_cons_of_mem _ member
      · intro place
        have before := sound.counted place
        rw [loans, lentTo_cons] at before
        simp only [State.loans, Reader.loans, nil_append, unlend]
        omega
      · intro writes other member
        refine sound.alone writes other ?_
        rw [loans]
        exact mem_cons_of_mem _ member
    · exact absurd stepped (by simp)

/-- In a run of careful calls nothing that was lent is disturbed. -/
theorem undisturbed_of_careful
    (reachable : ((system full program).guarded (Careful program)).Reachable state) :
    Undisturbed state := by
  suffices sound : Sound state from sound.undisturbed
  refine reachable.invariant ?_ ?_
  · rintro first ⟨contents, rfl⟩
    exact start_sound contents
  · rintro before label next sound ⟨careful, stepped⟩
    exact sound.step careful stepped

end Safety

end BufferReuse
