import SlotBuffer.Memory

/-! What an operation leaves behind: its result or the cause of its failure, the state after it, and
the events it logged, oldest first. The state is a part of the outcome of a failure too, so that an
operation which fails half way can be told from one which changes nothing. -/

namespace SlotBuffer

/-! ### Failures -/

inductive Failure
  | lengthOverflow (len additional : Nat)
  | allocation (cause : AllocationError)
  | overLimit (requested limit : Nat)
  | overcommit (len count capacity : Nat)
  | absent
  | invalidLimit (cause : LimitError)
deriving DecidableEq

def Failure.message : Failure → String
  | .lengthOverflow len additional =>
    s!"Can't reserve {additional} slots on top of {len} elements: length would overflow"
  | .allocation cause => "Failed to grow index buffer: " ++ cause.message
  | .overLimit requested limit =>
    s!"Requested capacity {requested} exceeds the configured limit of {limit}"
  | .overcommit len count capacity =>
    s!"Can't commit {count} slots on top of {len} elements with capacity {capacity}"
  | .absent => "Index buffer handle is absent"
  | .invalidLimit cause => cause.message

/-! ### Events -/

inductive Event
  | grew (before after : Nat) (strategy : Strategy)
  | overLimit (target limit : Nat)
  | refused (cause : AllocationError) (capacity : Nat)
deriving DecidableEq

inductive Level
  | trace
  | debug
deriving DecidableEq

namespace Event

def level : Event → Level
  | .grew .. => .trace
  | .overLimit .. | .refused .. => .debug

def message : Event → String
  | .grew .. => "grew index buffer"
  | .overLimit .. => "index buffer growth exceeds capacity limit"
  | .refused cause _ => "index buffer growth failed: " ++ cause.message

end Event

/-! ### Outcomes -/

structure Outcome (σ α : Type) where
  result : Except Failure α
  state : σ
  log : List Event := []

namespace Outcome

variable {σ τ α β : Type}

def done (state : σ) (value : α) : Outcome σ α := ⟨.ok value, state, []⟩

def failed (state : σ) (cause : Failure) : Outcome σ α := ⟨.error cause, state, []⟩

def logging (o : Outcome σ α) (event : Event) : Outcome σ α :=
  { o with log := o.log ++ [event] }

/-- Goes on from a success, with the state it left. -/
def andThen (o : Outcome σ α) (f : σ → σ × β) : Outcome σ β :=
  match o.result with
  | .ok _ => ⟨.ok (f o.state).2, (f o.state).1, o.log⟩
  | .error cause => ⟨.error cause, o.state, o.log⟩

/-- Goes on from a success with another operation, which may fail as well. -/
def followedBy (o : Outcome σ α) (f : σ → Outcome σ β) : Outcome σ β :=
  match o.result with
  | .ok _ => { f o.state with log := o.log ++ (f o.state).log }
  | .error cause => ⟨.error cause, o.state, o.log⟩

def map (f : α → β) (o : Outcome σ α) : Outcome σ β :=
  ⟨o.result.map f, o.state, o.log⟩

/-- The same outcome, told of a larger state. -/
def within (f : σ → τ) (o : Outcome σ α) : Outcome τ α :=
  ⟨o.result, f o.state, o.log⟩

@[simp] theorem result_andThen_eq_error {o : Outcome σ α} {f : σ → σ × β} {cause : Failure} :
    (o.andThen f).result = .error cause ↔ o.result = .error cause := by
  unfold andThen
  split <;> simp [*]

theorem result_andThen_eq_ok {o : Outcome σ α} {f : σ → σ × β} {y : β} :
    (o.andThen f).result = .ok y ↔ (∃ x, o.result = .ok x) ∧ (f o.state).2 = y := by
  unfold andThen
  split <;> simp [*]

theorem done_followedBy (s : σ) (x : α) (f : σ → Outcome σ β) : (done s x).followedBy f = f s := rfl

theorem followedBy_of_ok {o : Outcome σ α} {f : σ → Outcome σ β} {x : α} (h : o.result = .ok x) :
    o.followedBy f = { f o.state with log := o.log ++ (f o.state).log } := by
  simp [followedBy, h]

theorem followedBy_of_error {o : Outcome σ α} {f : σ → Outcome σ β} {cause : Failure}
    (h : o.result = .error cause) : o.followedBy f = ⟨.error cause, o.state, o.log⟩ := by
  simp [followedBy, h]

theorem map_followedBy (o : Outcome σ α) (f : α → τ) (g : σ → Outcome σ β) :
    (o.map f).followedBy g = o.followedBy g := by
  unfold map followedBy
  cases o.result <;> rfl

theorem result_map_eq_ok {o : Outcome σ α} {f : α → β} {y : β} :
    (o.map f).result = .ok y ↔ ∃ x, o.result = .ok x ∧ f x = y := by
  unfold map
  cases o.result <;> simp [Except.map]

end Outcome

end SlotBuffer
