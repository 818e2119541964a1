import SlotBuffer.Script.Call
import SlotBuffer.Script.Construct
import SlotBuffer.Script.Method

/-! A script at work on one buffer. Besides calling methods it asks for the length, the text, the
capacity, membership and single items, and it reads the buffer as a sequence, which is to read the
items one index after the other until there is none. A query is a call as well: its arguments are
made and counted before it is answered. -/

namespace SlotBuffer.Script

/-! ### Items by index -/

/-- The position that an index speaks of. Negative ones count from the end. -/
def position? (len : Nat) (i : Int) : Option Nat :=
  if 0 ≤ i then some i.toNat
  else if i.natAbs ≤ len then some (len - i.natAbs)
  else none

def item (b : Buffer) (i : Int) : Except Exception UInt64 :=
  match (position? b.len i).bind b.get? with
  | some v => .ok v
  | none => .error (.badIndex i)

theorem item_natCast (b : Buffer) (i : Nat) :
    item b i = match b.get? i with
      | some v => .ok v
      | none => .error (.badIndex i) := by
  simp [item, position?]

theorem item_natCast_eq_ok_iff {b : Buffer} {i : Nat} {v : UInt64} :
    item b i = .ok v ↔ b.items[i]? = some v := by
  rw [item_natCast, Buffer.get?]
  cases b.items[i]? <;> simp

theorem lt_len_of_item {b : Buffer} {i : Nat} {v : UInt64} (h : item b i = .ok v) : i < b.len := by
  obtain ⟨hi, _⟩ := List.getElem?_eq_some_iff.1 (item_natCast_eq_ok_iff.1 h)
  simpa using hi

/-- The items from index `i` on. -/
def readFrom (b : Buffer) (i : Nat) : List UInt64 :=
  match h : item b i with
  | .ok v => v :: readFrom b (i + 1)
  | .error _ => []
termination_by b.len - i
decreasing_by have := lt_len_of_item h; omega

theorem readFrom_eq_drop (b : Buffer) (i : Nat) : readFrom b i = b.items.drop i := by
  fun_induction readFrom b i with
  | case1 i v h ih =>
    obtain ⟨hi, hv⟩ := List.getElem?_eq_some_iff.1 (item_natCast_eq_ok_iff.1 h)
    rw [ih, List.drop_eq_getElem_cons hi, hv]
  | case2 i e h =>
    have hnone : b.items[i]? = none := by
      rw [Option.eq_none_iff_forall_ne_some]
      intro v hv
      rw [item_natCast_eq_ok_iff.2 hv] at h
      cases h
    rw [List.drop_eq_nil_of_le (List.getElem?_eq_none_iff.1 hnone)]

/-! ### Queries -/

variable {Object : Type} [Runtime Object]

/-- Answers a query, which takes an index, a value or nothing at all. A buffer cannot be read
backwards. -/
def ask (b : Buffer) (query : Query) (args : Arguments Object) : Except Exception Value := do
  match query with
  | .len => args.nothing; return .int b.len
  | .truth => args.nothing; return .bool (b.len != 0)
  | .text => args.nothing; return .text (text b)
  | .read => args.nothing; return .list ((readFrom b 0).map .word)
  | .readBackwards => throw .badType
  | .capacity => args.nothing; return .int b.capacity
  | .item => return .word (← item b (← Runtime.toIndex (← Runtime.operand args)))
  | .contains => return .bool (b.contains (← Runtime.toWord (← Runtime.operand args)))

/-! ### Steps -/

inductive Step (Object : Type := Value)
  | call (name : String) (args : TermArguments Object)
  | ask (query : Query) (args : TermArguments Object)

structure Answer where
  result : Except Exception Value
  buffer : Buffer

variable (memory : Memory)

/-- Carries an operation out on the buffer. -/
def operate (b : Buffer) (op : Buffer.Op) (answer : Reply → Value) : Answer :=
  let outcome := b.step memory op
  ⟨orRaise (outcome.result.map answer), outcome.state⟩

/-- Calls a method. Nothing happens to the buffer before all arguments are converted. -/
def call (b : Buffer) (method : Method) (args : Arguments Object) : Answer :=
  match method.operation args with
  | .error e => ⟨.error e, b⟩
  | .ok op => operate memory b op method.answer

/-- Calls a member. Only a method may change the buffer. -/
def Member.call (b : Buffer) (args : Arguments Object) : Member Object → Answer
  | .method m => Script.call memory b m args
  | .special query => ⟨Script.ask b query args, b⟩
  | .property => ⟨.error .notCallable, b⟩
  | .inherited answer => ⟨answer b args, b⟩

/-- What a call by name comes to. The arguments by position are made first, then the name is looked
up, and only then are those by name made. -/
def resolve (name : String) (args : TermArguments Object) :
    Except Exception (Member Object × Arguments Object) := do
  let positional ← evalAll args.positional
  let some member := Member.ofName? name | throw .noMethod
  let named ← evalNamed args.named
  return (member, { positional, named })

/-- Only a call may change the buffer. -/
def step (b : Buffer) : Step Object → Answer
  | .call name args =>
    match resolve name args with
    | .error e => ⟨.error e, b⟩
    | .ok (member, args) => member.call memory b args
  | .ask query args => ⟨args.eval >>= ask b query, b⟩

/-- The answers to steps taken one after the other. A step that raises does not end the session. -/
def answers : Buffer → List (Step Object) → List Answer
  | _, [] => []
  | b, s :: steps =>
    let answer := step memory b s
    answer :: answers answer.buffer steps

end SlotBuffer.Script
