import SlotBuffer.Buffer.Op

/-! What a buffer and a handle share. A handle holds a buffer or is absent. While absent it answers
as an empty buffer would, except that nothing can be inserted into it; destroying the buffer that it
holds makes it absent. -/

namespace SlotBuffer

class ListLike (σ : Type) where
  create : σ
  len : σ → Nat
  capacity : σ → Nat
  isEmpty (s : σ) : Bool := len s == 0
  destroy : σ → σ
  reserve : Memory → σ → Nat → List UInt64 → Outcome σ (List UInt64)
  append : Memory → σ → List UInt64 → Outcome σ Unit
  push (memory : Memory) (s : σ) (v : UInt64) : Outcome σ Unit := append memory s [v]
  find : σ → UInt64 → Option Nat
  insert : Memory → σ → UInt64 → Outcome σ Nat
  swapErase : σ → UInt64 → σ
  erase : σ → UInt64 → Option Nat × σ
  moveToBack : σ → UInt64 → σ
  moveToFront : σ → UInt64 → σ

instance : ListLike Buffer where
  create := Buffer.empty
  len := Buffer.len
  capacity := Buffer.capacity
  destroy := Buffer.destroy
  reserve := Buffer.reserve
  append := Buffer.append
  find := Buffer.lastIndex?
  insert := Buffer.insert
  swapErase := Buffer.swapErase
  erase := Buffer.erase
  moveToBack := Buffer.moveToBack
  moveToFront := Buffer.moveToFront

/-! ### Handles -/

abbrev Handle := Option Buffer

namespace Handle

/-- An absent handle has room for nothing, so only a window of no slots can be reserved. -/
def reserve (memory : Memory) (h : Handle) (additional : Nat) (vs : List UInt64) :
    Outcome Handle (List UInt64) :=
  match h with
  | some b => (b.reserve memory additional vs).within some
  | none => if additional = 0 then .done none [] else .failed none .absent

def append (memory : Memory) (h : Handle) (vs : List UInt64) : Outcome Handle Unit :=
  match h with
  | some b => (b.append memory vs).within some
  | none => if vs.isEmpty then .done none () else .failed none .absent

def insert (memory : Memory) (h : Handle) (v : UInt64) : Outcome Handle Nat :=
  match h with
  | some b => (b.insert memory v).within some
  | none => .failed none .absent

def erase (h : Handle) (v : UInt64) : Option Nat × Handle :=
  match h with
  | some b => ((b.erase v).1, some (b.erase v).2)
  | none => (none, none)

end Handle

instance : ListLike Handle where
  create := some Buffer.empty
  len h := h.elim 0 Buffer.len
  capacity h := h.elim 0 Buffer.capacity
  destroy _ := none
  reserve := Handle.reserve
  append := Handle.append
  find h v := h.bind (·.lastIndex? v)
  insert := Handle.insert
  swapErase h v := h.map (·.swapErase v)
  erase := Handle.erase
  moveToBack h v := h.map (·.moveToBack v)
  moveToFront h v := h.map (·.moveToFront v)

/-! ### Shared operations as data -/

namespace ListLike

inductive Op
  | len
  | capacity
  | isEmpty
  | destroy
  | reserve (additional : Nat) (vs : List UInt64)
  | append (vs : List UInt64)
  | push (v : UInt64)
  | find (v : UInt64)
  | insert (v : UInt64)
  | swapErase (v : UInt64)
  | erase (v : UInt64)
  | moveToBack (v : UInt64)
  | moveToFront (v : UInt64)
deriving DecidableEq

/-- The operation of the same name on buffers alone. -/
def Op.onBuffer : Op → Buffer.Op
  | .len => .len
  | .capacity => .capacity
  | .isEmpty => .isEmpty
  | .destroy => .destroy
  | .reserve additional vs => .reserve additional vs
  | .append vs => .append vs
  | .push v => .push v
  | .find v => .find v
  | .insert v => .insert v
  | .swapErase v => .swapErase v
  | .erase v => .erase v
  | .moveToBack v => .moveToBack v
  | .moveToFront v => .moveToFront v

variable {σ : Type} [ListLike σ] (memory : Memory)

def step (s : σ) : Op → Outcome σ Reply
  | .len => .done s (.count (len s))
  | .capacity => .done s (.count (capacity s))
  | .isEmpty => .done s (.flag (isEmpty s))
  | .destroy => .done (destroy s) .unit
  | .reserve additional vs => (reserve memory s additional vs).map .values
  | .append vs => (append memory s vs).map fun _ => .unit
  | .push v => (push memory s v).map fun _ => .unit
  | .find v => .done s (.index (find s v))
  | .insert v => (insert memory s v).map fun i => .index (some i)
  | .swapErase v => .done (swapErase s v) .unit
  | .erase v =>
    let erased := erase s v
    .done erased.2 (.index erased.1)
  | .moveToBack v => .done (moveToBack s v) .unit
  | .moveToFront v => .done (moveToFront s v) .unit

theorem step_buffer (b : Buffer) (op : Op) : step memory b op = b.step memory op.onBuffer := by
  cases op <;> rfl

/-- A handle that holds a buffer leaves everything but its own destruction to the buffer. -/
theorem step_some (b : Buffer) {op : Op} (h : op ≠ .destroy) :
    step memory (some b : Handle) op = (b.step memory op.onBuffer).within some := by
  cases op with
  | destroy => exact absurd rfl h
  | _ => rfl

/-- A list is operated on, or another one takes its place. -/
inductive Command (σ : Type)
  | on (op : Op)
  | replace (s : σ)

def Command.step (s : σ) : Command σ → Outcome σ Reply
  | .on op => ListLike.step memory s op
  | .replace s => .done s .unit

end ListLike

end SlotBuffer
