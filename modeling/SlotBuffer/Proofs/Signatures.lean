import SlotBuffer.Proofs.Conversion
import SlotBuffer.Script.Session

/-! What a script may count on, apart from how names are looked up and how replies become values.
Each method has a name, what it takes, the operation on the buffer that a call of it stands for, and
the form in which a script receives the reply. A step with its arguments then means an operation, or
it raises, or it is about a method that all objects have. -/

namespace SlotBuffer.Script

/-! ### Replies -/

inductive Form
  | nothing
  | number
  | position
  | truth
  | nonzero
  | text
  | list

/-- A script that is due a reply in this form receives this value. -/
inductive Receives : Form → Reply → Value → Prop
  | nothing (reply : Reply) : Receives .nothing reply .null
  | count (n : Nat) : Receives .number (.count n) (.int n)
  | word (w : UInt64) : Receives .number (.value (some w)) (.int w.toNat)
  | found (k : Nat) : Receives .position (.index (some k)) (.int k)
  | notFound : Receives .position (.index none) .null
  | truth (yes : Bool) : Receives .truth (.flag yes) (.bool yes)
  | zero : Receives .nonzero (.count 0) (.bool false)
  | nonzero (n : Nat) : Receives .nonzero (.count (n + 1)) (.bool true)
  | text (s : String) : Receives .text (.text s) (.text ("IndexBuf(" ++ s ++ ")"))
  | list (ws : List UInt64) : Receives .list (.values ws) (.list (ws.map fun w => .int w.toNat))

/-- A form leaves no choice. -/
theorem Receives.unique {form : Form} {reply : Reply} {v w : Value} (hv : Receives form reply v)
    (hw : Receives form reply w) : v = w := by
  cases hv <;> cases hw <;> rfl

/-! ### Signatures -/

/-- What a call takes, and the operation that it stands for. -/
inductive Signature
  | word (name : String) (op : UInt64 → Buffer.Op)
  | words (name : String) (op : List UInt64 → Buffer.Op)
  | operand (op : UInt64 → Buffer.Op)
  | nothing (op : Buffer.Op)

namespace Signature

variable {Object : Type} [Reading Object]

/-- The arguments fit the signature and stand for the operation. -/
def Reads (args : Arguments Object) : Signature → Buffer.Op → Prop
  | .word name f, op => ∃ w, Accepted (args.Gives name) IsWord w ∧ f w = op
  | .words name f, op => ∃ ws, Accepted (args.Gives name) IsWords ws ∧ f ws = op
  | .operand f, op => ∃ w, Accepted args.GivesUnnamed IsWord w ∧ f w = op
  | .nothing f, op => args.Empty ∧ f = op

/-- The arguments are too many, too few or misnamed, or there is one that cannot be converted. -/
def Rejects (args : Arguments Object) : Signature → Exception → Prop
  | .word name _, e => Rejected (args.Gives name) NoWord e
  | .words name _, e => Rejected (args.Gives name) NoWords e
  | .operand _, e => Rejected args.GivesUnnamed NoWord e
  | .nothing _, e => e = .badArguments ∧ ¬ args.Empty

theorem Rejects.ofArguments {args : Arguments Object} {takes : Signature} {e : Exception}
    (h : takes.Rejects args e) : e.OfArguments := by
  cases takes with
  | word | operand => exact Rejected.ofArguments h NoInteger.ofArguments
  | words => exact Rejected.ofArguments h NoWords.ofArguments
  | nothing =>
    obtain ⟨rfl, -⟩ := h
    trivial

/-- The operation for the arguments, as a runtime converts them. -/
def parse [Runtime Object] (args : Arguments Object) : Signature → Except Exception Buffer.Op
  | .word name f => args.word name >>= fun w => pure (f w)
  | .words name f => args.words name >>= fun ws => pure (f ws)
  | .operand f => (Runtime.operand args >>= Runtime.toWord) >>= fun w => pure (f w)
  | .nothing f => args.nothing >>= fun _ => pure f

theorem parse_decided [Runtime Object] (laws : Lawful Object) (takes : Signature)
    (args : Arguments Object) :
    Decided (takes.parse args) (takes.Reads args) (takes.Rejects args) := by
  cases takes with
  | word => exact (laws.word_decided args _).map _
  | words => exact (laws.words_decided args _).map _
  | operand => exact (laws.operand_word_decided args).map _
  | nothing => exact laws.nothing_then_decided args _

end Signature

/-! ### Names -/

/-- The methods with their signatures, and the forms of what they return. -/
inductive Declares : String → Signature → Form → Prop
  | append : Declares "append" (.word "value" .push) .nothing
  | extend : Declares "extend" (.words "values" .append) .nothing
  | reserve : Declares "reserve" (.word "additional" fun w => .reserve w.toNat []) .nothing
  | find : Declares "find" (.word "value" .find) .position
  | removeUnordered : Declares "remove_unordered" (.word "value" .swapErase) .nothing
  | setInsert : Declares "set_insert" (.word "value" .insert) .position
  | removeFirstMatch : Declares "remove_first_match" (.word "value" .erase) .position
  | moveToEnd : Declares "move_to_end" (.word "value" .moveToBack) .nothing
  | moveToFront : Declares "move_to_front" (.word "value" .moveToFront) .nothing
  | destroy : Declares "destroy" (.nothing .destroy) .nothing
  | clear : Declares "clear" (.nothing .clear) .nothing
  | toList : Declares "to_list" (.nothing .items) .list
  | len : Declares "__len__" (.nothing .len) .number
  | repr : Declares "__repr__" (.nothing .display) .text
  | contains : Declares "__contains__" (.operand .contains) .truth

/-- The queries that are answered by one operation. -/
inductive Query.Declares : Query → Signature → Form → Prop
  | len : Declares .len (.nothing .len) .number
  | truth : Declares .truth (.nothing .len) .nonzero
  | text : Declares .text (.nothing .display) .text
  | read : Declares .read (.nothing .items) .list
  | capacity : Declares .capacity (.nothing .capacity) .number
  | contains : Declares .contains (.operand .contains) .truth

/-- Besides its methods, a buffer has items by index and a capacity. -/
inductive OfClass : String → Prop
  | method {name : String} {takes : Signature} {gives : Form} (h : Declares name takes gives) :
      OfClass name
  | item : OfClass "__getitem__"
  | capacity : OfClass "capacity"

/-! ### Steps -/

/-- The index speaks of position `k` among `len`, from the front or from the end. -/
def IsPosition (len : Nat) (i : Int) (k : Nat) : Prop := k < len ∧ (i = k ∨ i + len = k)

theorem position_or_outOfRange (len : Nat) (i : Int) :
    (∃ k, IsPosition len i k) ∨ i < -len ∨ (len : Int) ≤ i := by
  by_cases h : i < -len ∨ (len : Int) ≤ i
  · exact .inr h
  · refine .inl ?_
    by_cases hi : 0 ≤ i
    · exact ⟨i.toNat, by omega, by omega⟩
    · exact ⟨(i + len).toNat, by omega, by omega⟩

namespace Step

variable {Object : Type}

def terms : Step Object → TermArguments Object
  | .call _ terms | .ask _ terms => terms

/-- A declared method is called by its name, and a declared query is asked. -/
inductive Declares : Step Object → Signature → Form → Prop
  | method {name : String} {terms : TermArguments Object} {takes : Signature} {gives : Form}
      (h : Script.Declares name takes gives) : Declares (.call name terms) takes gives
  | query {query : Query} {terms : TermArguments Object} {takes : Signature} {gives : Form}
      (h : query.Declares takes gives) : Declares (.ask query terms) takes gives

/-- An item is asked for by its index. -/
inductive Subscripts : Step Object → Prop
  | method {terms : TermArguments Object} : Subscripts (.call "__getitem__" terms)
  | query {terms : TermArguments Object} : Subscripts (.ask .item terms)

section

variable [Reading Object]

/-- On `b` and with these arguments, the step stands for an operation and is due the reply. -/
inductive Means (b : Buffer) (args : Arguments Object) : Step Object → Buffer.Op → Form → Prop
  | declared {s : Step Object} {takes : Signature} {gives : Form} {op : Buffer.Op}
      (h : s.Declares takes gives) (hargs : takes.Reads args op) : Means b args s op gives
  | item {s : Step Object} {i : Int} {k : Nat} (h : s.Subscripts)
      (hi : Accepted args.GivesUnnamed IsIndex i) (hk : IsPosition b.len i k) :
      Means b args s (.get k) .number

/-- On `b` and with these arguments, the step stands for nothing: there is no such method, an
argument cannot be converted, or an index speaks of no position. -/
inductive Raises [Runtime Object] (b : Buffer) (args : Arguments Object) :
    Step Object → Exception → Prop
  | rejected {s : Step Object} {takes : Signature} {gives : Form} {e : Exception}
      (h : s.Declares takes gives) (hargs : takes.Rejects args e) : Raises b args s e
  | noIndex {s : Step Object} {e : Exception} (h : s.Subscripts)
      (he : Rejected args.GivesUnnamed NoIndex e) : Raises b args s e
  | outOfRange {s : Step Object} {i : Int} (h : s.Subscripts)
      (hi : Accepted args.GivesUnnamed IsIndex i) (hrange : i < -b.len ∨ (b.len : Int) ≤ i) :
      Raises b args s (.badIndex i)
  | readBackwards {terms : TermArguments Object} :
      Raises b args (.ask .readBackwards terms) .badType
  | notCallable {terms : TermArguments Object} :
      Raises b args (.call "capacity" terms) .notCallable
  | noMethod {name : String} {terms : TermArguments Object} (h : ¬ OfClass name)
      (hnone : (Runtime.inherited? name : Option (Inherited Object)) = none) :
      Raises b args (.call name terms) .noMethod

end

/-- The step calls a method that is not of the class. -/
inductive Inherits [Runtime Object] : Step Object → Inherited Object → Prop
  | method {name : String} {terms : TermArguments Object} {answer : Inherited Object}
      (h : ¬ OfClass name) (hsome : Runtime.inherited? name = some answer) :
      Inherits (.call name terms) answer

end Step

end SlotBuffer.Script
