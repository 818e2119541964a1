import SlotBuffer.Buffer.Op
import SlotBuffer.Script.Runtime

/-! What a buffer has under the names of its class. A method converts its arguments to an operation
on the buffer, and the reply of the operation to a value. A special method answers what a script can
ask without a method. -/

namespace SlotBuffer.Script

def Value.ofReply : Reply → Value
  | .unit | .index none | .value none => .null
  | .count n | .index (some n) => .int n
  | .flag yes => .bool yes
  | .value (some v) => .word v
  | .values vs => .list (vs.map .word)
  | .policy p => .policy p
  | .text s => .text s

inductive Method
  | push
  | append
  | reserve
  | find
  | insert
  | swapErase
  | erase
  | moveToBack
  | moveToFront
  | destroy
  | clear
  | items
deriving DecidableEq

namespace Method

def ofName? : String → Option Method
  | "append" => some .push
  | "extend" => some .append
  | "reserve" => some .reserve
  | "find" => some .find
  | "set_insert" => some .insert
  | "remove_unordered" => some .swapErase
  | "remove_first_match" => some .erase
  | "move_to_end" => some .moveToBack
  | "move_to_front" => some .moveToFront
  | "destroy" => some .destroy
  | "clear" => some .clear
  | "to_list" => some .items
  | _ => none

/-- The operation that a call with these arguments stands for. -/
def operation {Object : Type} [Runtime Object] (method : Method) (args : Arguments Object) :
    Except Exception Buffer.Op := do
  match method with
  | .push => return .push (← args.word "value")
  | .append => return .append (← args.words "values")
  | .reserve => return .reserve (← args.word "additional").toNat []
  | .find => return .find (← args.word "value")
  | .insert => return .insert (← args.word "value")
  | .swapErase => return .swapErase (← args.word "value")
  | .erase => return .erase (← args.word "value")
  | .moveToBack => return .moveToBack (← args.word "value")
  | .moveToFront => return .moveToFront (← args.word "value")
  | .destroy => args.nothing; return .destroy
  | .clear => args.nothing; return .clear
  | .items => args.nothing; return .items

/-- A script is not given the window that it reserves. -/
def answer (method : Method) (reply : Reply) : Value :=
  match method with
  | .reserve => .null
  | _ => .ofReply reply

end Method

/-- What is asked of a buffer otherwise than by a method. -/
inductive Query
  | len
  | truth
  | text
  | read
  | readBackwards
  | capacity
  | item
  | contains
deriving DecidableEq

/-! ### Members -/

/-- What a name stands for. A property is read and not called. -/
inductive Member (Object : Type)
  | method (method : Method)
  | special (query : Query)
  | property
  | inherited (answer : Inherited Object)

/-- The names of the class go before those that all objects have. -/
def Member.ofName? {Object : Type} [Runtime Object] : String → Option (Member Object)
  | "__len__" => some (.special .len)
  | "__repr__" => some (.special .text)
  | "__contains__" => some (.special .contains)
  | "__getitem__" => some (.special .item)
  | "capacity" => some .property
  | name =>
    match Method.ofName? name with
    | some m => some (.method m)
    | none => (Runtime.inherited? name).map .inherited

end SlotBuffer.Script
