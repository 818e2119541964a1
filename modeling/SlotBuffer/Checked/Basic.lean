import SlotBuffer.Buffer.Op

/-! The operations with nothing taken for granted. Slots and length are kept apart, with no bound on
either; every slot that is read or written, every range and every sum or difference of words is
checked, and where a check fails the answer is `none`. -/

namespace SlotBuffer.Checked

/-! ### Words -/

def add? (m n : Nat) : Option Nat := if m + n ≤ maxLength then some (m + n) else none

def sub? (m n : Nat) : Option Nat := if n ≤ m then some (m - n) else none

/-! ### Slots -/

def read? (slots : Array UInt64) (i : Nat) : Option UInt64 := slots[i]?

def write? (slots : Array UInt64) (i : Nat) (v : UInt64) : Option (Array UInt64) :=
  if i < slots.size then some (slots.setIfInBounds i v) else none

/-- The slots from `start` up to `stop`. -/
def range? (slots : Array UInt64) (start stop : Nat) : Option (List UInt64) :=
  if start ≤ stop ∧ stop ≤ slots.size then some ((slots.toList.take stop).drop start) else none

/-- Lays values over the slots from `start` up to `stop`, which must be as many. -/
def lay? (slots : Array UInt64) (start stop : Nat) (vs : List UInt64) : Option (Array UInt64) :=
  if start + vs.length = stop ∧ stop ≤ slots.size then some (overwrite slots start vs) else none

/-- Copies the slots from `start` up to `stop` to those from `target` on. -/
def shift? (slots : Array UInt64) (start stop target : Nat) : Option (Array UInt64) := do
  let vs ← range? slots start stop
  lay? slots target (target + vs.length) vs

/-! ### Growth -/

structure State where
  slots : Array UInt64
  len : Nat
  policy : Policy
deriving DecidableEq

variable {α β : Type}

/-- Goes on from a success with a step that may fail its checks. -/
def andThen? (o : Outcome State α) (f : State → Option (State × β)) : Option (Outcome State β) :=
  match o.result with
  | .ok _ => do
    let (s, b) ← f o.state
    return ⟨.ok b, s, o.log⟩
  | .error cause => return ⟨.error cause, o.state, o.log⟩

variable (memory : Memory)

/-- The slots of a buffer grown from `before` to `after`, or why there are none. -/
def enlarge? (s : State) (after : Nat) : Option (Except AllocationError (Array UInt64)) :=
  match s.policy.strategy with
  | .inPlace => do
    let extra ← sub? after s.slots.size
    return (memory.extend s.slots.size extra).map fun _ => s.slots ++ Array.replicate extra 0
  | .copying =>
    match memory.allocate after with
    | .error cause => return .error cause
    | .ok () => do
      let fresh ← lay? (Array.replicate after 0) 0 s.slots.size s.slots.toList
      return .ok fresh

/-- The capacity to grow to. Doubling is a checked sum, so it never stops short at the largest
word. -/
def nextCapacity? (s : State) (target : Nat) : Option Nat := do
  let doubled ← add? s.slots.size s.slots.size
  return match s.policy.limit with
    | none => max target doubled
    | some limit => min (max target doubled) limit.slots

def grow? (s : State) (target : Nat) : Option (Outcome State Unit) := do
  let capacity ← nextCapacity? s target
  match s.policy.exceeded? target with
  | some limit =>
    return ⟨.error (.overLimit target limit.slots), s, [.overLimit target limit.slots]⟩
  | none =>
    match ← enlarge? memory s capacity with
    | .error cause => return ⟨.error (.allocation cause), s, [.refused cause capacity]⟩
    | .ok slots =>
      return ⟨.ok (), { s with slots }, [.grew s.slots.size slots.size s.policy.strategy]⟩

def makeRoom? (s : State) (additional : Nat) : Option (Outcome State Unit) :=
  match add? s.len additional with
  | none => return .failed s (.lengthOverflow s.len additional)
  | some target =>
    if target ≤ s.slots.size then return .done s ()
    else grow? memory s target

/-! ### Operations -/

def items? (s : State) : Option (List UInt64) := range? s.slots 0 s.len

def reserve? (s : State) (additional : Nat) (vs : List UInt64) :
    Option (Outcome State (List UInt64)) := do
  andThen? (← makeRoom? memory s additional) fun s => do
    let target ← add? s.len additional
    let window ← range? s.slots s.len target
    let vs := vs.take additional
    let slots ← lay? s.slots s.len (s.len + vs.length) vs
    return ({ s with slots }, window)

def commit? (s : State) (count : Nat) : Option (Outcome State Unit) :=
  let refused := Outcome.failed s (.overcommit s.len count s.slots.size)
  match add? s.len count with
  | none => return refused
  | some len => if len ≤ s.slots.size then return .done { s with len } () else return refused

def append? (s : State) (vs : List UInt64) : Option (Outcome State Unit) :=
  if vs.isEmpty then return .done s ()
  else do
    andThen? (← makeRoom? memory s vs.length) fun s => do
      let len ← add? s.len vs.length
      let slots ← lay? s.slots s.len len vs
      return ({ s with slots, len }, ())

def insert? (s : State) (v : UInt64) : Option (Outcome State Nat) := do
  match (← items? s).idxOf? v with
  | some i => return .done s i
  | none =>
    andThen? (← append? memory s [v]) fun s => do
      let last ← sub? s.len 1
      return (s, last)

def swapErase? (s : State) (v : UInt64) : Option State := do
  match lastIdxOf? v (← items? s) with
  | none => return s
  | some i =>
    let last ← sub? s.len 1
    let x ← read? s.slots last
    let slots ← write? s.slots i x
    return { s with slots, len := last }

def erase? (s : State) (v : UInt64) : Option (Option Nat × State) := do
  match (← items? s).idxOf? v with
  | none => return (none, s)
  | some i =>
    let next ← add? i 1
    let slots ← shift? s.slots next s.len i
    let last ← sub? s.len 1
    return (some i, { s with slots, len := last })

def moveToBack? (s : State) (v : UInt64) : Option State :=
  match sub? s.len 1 with
  | none => return s
  | some last => do
    match (← range? s.slots 0 last).idxOf? v with
    | none => return s
    | some i =>
      let next ← add? i 1
      let slots ← shift? s.slots next s.len i
      let slots ← write? slots last v
      return { s with slots }

def moveToFront? (s : State) (v : UInt64) : Option State := do
  match (← items? s).idxOf? v with
  | none => return s
  | some i =>
    let slots ← shift? s.slots 0 i 1
    let slots ← write? slots 0 v
    return { s with slots }

def replying (reply : Reply) (s : Option State) : Option (Outcome State Reply) :=
  s.map fun s => .done s reply

def step? (s : State) : Buffer.Op → Option (Outcome State Reply)
  | .policy => return .done s (.policy s.policy)
  | .len => return .done s (.count s.len)
  | .capacity => return .done s (.count s.slots.size)
  | .isEmpty => return .done s (.flag (s.len == 0))
  | .items => return .done s (.values (← items? s))
  | .get i => return .done s (.value (← items? s)[i]?)
  | .contains v => return .done s (.flag (lastIdxOf? v (← items? s)).isSome)
  | .find v => return .done s (.index (lastIdxOf? v (← items? s)))
  | .push v => return (← append? memory s [v]).map fun _ => .unit
  | .append vs => return (← append? memory s vs).map fun _ => .unit
  | .reserve additional vs => return (← reserve? memory s additional vs).map .values
  | .commit count => return (← commit? s count).map fun _ => .unit
  | .insert v => return (← insert? memory s v).map fun i => .index (some i)
  | .swapErase v => replying .unit (swapErase? s v)
  | .erase v => return .done (← erase? s v).2 (.index (← erase? s v).1)
  | .moveToBack v => replying .unit (moveToBack? s v)
  | .moveToFront v => replying .unit (moveToFront? s v)
  | .clear => return .done { s with len := 0 } .unit
  | .destroy => return .done { s with slots := #[], len := 0 } .unit
  | .display => return .done s (.text (showItems .inline 0 (← items? s)))
  | .describe layout =>
    return .done s (.text (describeParts layout (← items? s) s.slots.size s.policy))

end SlotBuffer.Checked
