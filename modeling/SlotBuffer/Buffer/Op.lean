import SlotBuffer.Buffer.Insert
import SlotBuffer.Buffer.Remove
import SlotBuffer.Buffer.Reorder
import SlotBuffer.Buffer.Text
import SlotBuffer.Buffer.Window

/-! The operations on one buffer as data, so that runs of them can be spoken of. -/

namespace SlotBuffer

/-- What an operation answers. -/
inductive Reply
  | unit
  | count (n : Nat)
  | flag (yes : Bool)
  | index (i : Option Nat)
  | value (v : Option UInt64)
  | values (vs : List UInt64)
  | policy (p : Policy)
  | text (s : String)
deriving DecidableEq

namespace Buffer

inductive Op
  | policy
  | len
  | capacity
  | isEmpty
  | items
  | get (i : Nat)
  | contains (v : UInt64)
  | find (v : UInt64)
  | push (v : UInt64)
  | append (vs : List UInt64)
  | reserve (additional : Nat) (vs : List UInt64)
  | commit (count : Nat)
  | insert (v : UInt64)
  | swapErase (v : UInt64)
  | erase (v : UInt64)
  | moveToBack (v : UInt64)
  | moveToFront (v : UInt64)
  | clear
  | destroy
  | display
  | describe (layout : Layout)
deriving DecidableEq

variable (memory : Memory)

def step (b : Buffer) : Op → Outcome Buffer Reply
  | .policy => .done b (.policy b.policy)
  | .len => .done b (.count b.len)
  | .capacity => .done b (.count b.capacity)
  | .isEmpty => .done b (.flag b.isEmpty)
  | .items => .done b (.values b.items)
  | .get i => .done b (.value (b.get? i))
  | .contains v => .done b (.flag (b.contains v))
  | .find v => .done b (.index (b.lastIndex? v))
  | .push v => (b.push memory v).map fun _ => .unit
  | .append vs => (b.append memory vs).map fun _ => .unit
  | .reserve additional vs => (b.reserve memory additional vs).map .values
  | .commit count => (b.commit count).map fun _ => .unit
  | .insert v => (b.insert memory v).map fun i => .index (some i)
  | .swapErase v => .done (b.swapErase v) .unit
  | .erase v =>
    let erased := b.erase v
    .done erased.2 (.index erased.1)
  | .moveToBack v => .done (b.moveToBack v) .unit
  | .moveToFront v => .done (b.moveToFront v) .unit
  | .clear => .done b.clear .unit
  | .destroy => .done b.destroy .unit
  | .display => .done b (.text b.display)
  | .describe layout => .done b (.text (b.describe layout))

/-- One step where every operation of a run may meet another memory. -/
def stepIn (b : Buffer) (call : Memory × Op) : Outcome Buffer Reply := b.step call.1 call.2

end Buffer

end SlotBuffer
