import SlotBuffer.Outcome

/-! What a call can raise: a call that does not fit what it calls, an argument that cannot be
converted, or the failure of the operation itself. -/

namespace SlotBuffer.Script

inductive Exception
  | noMethod
  | notCallable
  | badArguments
  | badType
  | intRange
  | badIndex (i : Int)
  | failure (cause : Failure)
deriving DecidableEq

inductive ExceptionClass
  | attribute
  | type
  | overflow
  | index
  | memory
  | value
deriving DecidableEq

def ExceptionClass.ofFailure : Failure → ExceptionClass
  | .lengthOverflow .. => .overflow
  | .allocation _ | .overLimit .. => .memory
  | .overcommit .. | .absent | .invalidLimit _ => .value

namespace Exception

def kind : Exception → ExceptionClass
  | .noMethod => .attribute
  | .notCallable | .badArguments | .badType => .type
  | .intRange => .overflow
  | .badIndex _ => .index
  | .failure cause => .ofFailure cause

/-- The text of an exception that the library words itself. -/
def message? : Exception → Option String
  | .badIndex i => some s!"IndexBuf index {i} out of range"
  | .failure cause => some cause.message
  | _ => none

end Exception

end SlotBuffer.Script
