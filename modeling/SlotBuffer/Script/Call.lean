import SlotBuffer.Buffer.Text
import SlotBuffer.Script.Runtime

/-! The runtime of scripts that pass values. Arguments are first bound to parameters, by position
and then by name, and only then converted. -/

namespace SlotBuffer.Script

/-- The argument of each parameter. An argument left over, one given twice and a required one
missing are all refused. -/
def bind {α : Type} : List Parameter → List α → List (String × α) →
    Except Exception (List (Option α))
  | [], [], [] => .ok []
  | [], _, _ => .error .badArguments
  | p :: ps, v :: vs, named =>
    if (named.lookup p.name).isSome then .error .badArguments
    else return some v :: (← bind ps vs named)
  | p :: ps, [], named =>
    match named.lookup p.name with
    | some v => return some v :: (← bind ps [] (named.filter (·.1 ≠ p.name)))
    | none => if p.required then .error .badArguments else return none :: (← bind ps [] named)

/-- The one argument of a call, which is given by position. -/
def operand (args : Arguments) : Except Exception Value :=
  match args.positional, args.named with
  | [v], [] => .ok v
  | _, _ => .error .badArguments

/-! ### Conversions -/

namespace Value

def toWord (v : Value) : Except Exception UInt64 :=
  match v.int? with
  | some n => if 0 ≤ n ∧ n < UInt64.size then .ok (UInt64.ofNat n.toNat) else .error .intRange
  | none => .error .badType

/-- The first element that is no word decides the error. -/
def toWords : Value → Except Exception (List UInt64)
  | .list vs | .tuple vs => vs.mapM toWord
  | _ => .error .badType

def toIndex (v : Value) : Except Exception Int :=
  match v.int? with
  | some n => if -(UInt64.size / 2) ≤ n ∧ n < UInt64.size / 2 then .ok n else .error .intRange
  | none => .error .badType

def toStrategy : Value → Except Exception Strategy
  | .strategy s => .ok s
  | _ => .error .badType

def toPolicy : Value → Except Exception Policy
  | .policy p => .ok p
  | _ => .error .badType

def option {α : Type} (convert : Value → Except Exception α) :
    Value → Except Exception (Option α)
  | .null => .ok none
  | v => (convert v).map some

end Value

/-! ### The runtime -/

def text (b : Buffer) : String := "IndexBuf(" ++ b.display ++ ")"

/-- Of the methods that all objects have, this runtime has the one for the text, which is the text
that a buffer is shown by. -/
def inherited? : String → Option (Inherited Value)
  | "__str__" => some fun b args => do
    let _ ← bind [] args.positional args.named
    return .text (text b)
  | _ => none

@[default_instance]
instance : Runtime Value where
  bind parameters args := bind parameters args.positional args.named
  operand := operand
  toWord := Value.toWord
  toWords := Value.toWords
  toIndex := Value.toIndex
  toStrategy := Value.toStrategy
  toPolicy := Value.toPolicy
  option := Value.option
  ofList := .list
  ofTuple := .tuple
  ofPolicy := .policy
  inherited? := inherited?

end SlotBuffer.Script
