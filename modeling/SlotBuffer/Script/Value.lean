import SlotBuffer.Policy

/-! The values that a script passes and receives. -/

namespace SlotBuffer.Script

/-- Only whole numbers are ever converted, so of a number with a fraction nothing is kept. -/
inductive Value
  | null
  | bool (b : Bool)
  | int (n : Int)
  | fraction
  | text (s : String)
  | list (vs : List Value)
  | tuple (vs : List Value)
  | strategy (s : Strategy)
  | policy (p : Policy)

namespace Value

def word (v : UInt64) : Value := .int v.toNat

/-- A truth value counts as zero or one. -/
def int? : Value → Option Int
  | .int n => some n
  | .bool b => some (if b then 1 else 0)
  | _ => none

end Value

end SlotBuffer.Script
