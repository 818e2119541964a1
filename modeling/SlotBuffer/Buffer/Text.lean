import SlotBuffer.Buffer.Basic
import SlotBuffer.Layout

/-! The texts of a buffer. `display` shows the items alone; `describe` shows all that tells buffers
apart but the contents of their spare slots. -/

namespace SlotBuffer

/-- A list of indices in decimal digits. -/
def showItems (layout : Layout) (depth : Nat) (vs : List UInt64) : String :=
  layout.group depth "[" "]" "" (vs.map fun v => v.toNat.repr)

def Policy.showLimit (layout : Layout) (depth : Nat) : Option CapacityLimit → String
  | none => "None"
  | some limit => layout.group depth "Some(" ")" "" [limit.slots.repr]

def Policy.describe (policy : Policy) (layout : Layout) (depth : Nat) : String :=
  layout.group depth "Config \x7b" "\x7d" " "
    ["strategy: " ++ policy.strategy.name,
      "max_capacity: " ++ showLimit layout (depth + 1) policy.limit]

/-- A buffer as a record of its items, its capacity and its policy. -/
def describeParts (layout : Layout) (items : List UInt64) (capacity : Nat) (policy : Policy) :
    String :=
  layout.group 0 "IndexBuf \x7b" "\x7d" " "
    ["items: " ++ showItems layout 1 items,
      "capacity: " ++ capacity.repr,
      "config: " ++ policy.describe layout 1]

namespace Buffer

def display (b : Buffer) : String := showItems .inline 0 b.items

def describe (b : Buffer) (layout : Layout) : String :=
  describeParts layout b.items b.capacity b.policy

end Buffer

end SlotBuffer
