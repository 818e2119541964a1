import SlotBuffer.Buffer.Basic
import SlotBuffer.Script.Exception
import SlotBuffer.Script.Value

/-! Calls from a script. What a script passes are objects of its language, and it is the runtime of
that language that binds them to parameters and converts them, before the library sees them. Here a
runtime is anything that does so. -/

namespace SlotBuffer.Script

structure Parameter where
  name : String
  required : Bool := true

structure Arguments (Object : Type := Value) where
  positional : List Object := []
  named : List (String × Object) := []

/-- A method that all objects have answers for a buffer and cannot change it. -/
abbrev Inherited (Object : Type) := Buffer → Arguments Object → Except Exception Value

class Runtime (Object : Type) where
  /-- The argument of each parameter, where it has one. -/
  bind : List Parameter → Arguments Object → Except Exception (List (Option Object))
  /-- The argument of a call that takes exactly one and has no name for it. -/
  operand : Arguments Object → Except Exception Object
  toWord : Object → Except Exception UInt64
  toWords : Object → Except Exception (List UInt64)
  toIndex : Object → Except Exception Int
  toStrategy : Object → Except Exception Strategy
  toPolicy : Object → Except Exception Policy
  /-- Converts an object that may stand for nothing. -/
  option {α : Type} : (Object → Except Exception α) → Object → Except Exception (Option α)
  ofList : List Object → Object
  ofTuple : List Object → Object
  ofPolicy : Policy → Object
  inherited? : String → Option (Inherited Object)

variable {Object : Type} [Runtime Object]

namespace Arguments

/-- The argument of a call that takes exactly one. -/
def one (args : Arguments Object) (name : String) : Except Exception Object := do
  match ← Runtime.bind [{ name }] args with
  | [some v] => .ok v
  | _ => .error .badArguments

/-- The two arguments of a call that may leave either out. -/
def two (args : Arguments Object) (first second : String) :
    Except Exception (Option Object × Option Object) := do
  match ← Runtime.bind [⟨first, false⟩, ⟨second, false⟩] args with
  | [v, w] => .ok (v, w)
  | _ => .error .badArguments

def nothing (args : Arguments Object) : Except Exception Unit := do
  let _ ← Runtime.bind [] args

/-- The argument of a call that takes one word. -/
def word (args : Arguments Object) (name : String) : Except Exception UInt64 := do
  Runtime.toWord (← args.one name)

/-- The argument of a call that takes one list of words. -/
def words (args : Arguments Object) (name : String) : Except Exception (List UInt64) := do
  Runtime.toWords (← args.one name)

end Arguments

/-- Converts an argument that may be left out or stand for nothing. -/
def optional {α : Type} (convert : Object → Except Exception α) :
    Option Object → Except Exception (Option α)
  | none => .ok none
  | some v => Runtime.option convert v

end SlotBuffer.Script
