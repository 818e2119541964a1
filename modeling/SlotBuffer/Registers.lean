import SlotBuffer.Buffer.Op

/-! Buffers in numbered registers, and the commands that make, copy, compare and take buffers apart.
A register that was never written holds the empty buffer. -/

namespace SlotBuffer

abbrev Registers := Nat → Buffer

namespace Registers

def initial : Registers := fun _ => .empty

def set (regs : Registers) (r : Nat) (b : Buffer) : Registers :=
  fun i => if i = r then b else regs i

@[simp] theorem set_self (regs : Registers) (r : Nat) (b : Buffer) : regs.set r b r = b := by
  simp [set]

theorem set_of_ne (regs : Registers) (b : Buffer) {r i : Nat} (h : i ≠ r) :
    regs.set r b i = regs i := by simp [set, h]

/-- What relates two states register by register relates them with related buffers put in. -/
theorem rel_set {R : Buffer → Buffer → Prop} {regs regs' : Registers} {a b : Buffer}
    (h : ∀ i, R (regs i) (regs' i)) (hab : R a b) (r i : Nat) :
    R (regs.set r a i) (regs'.set r b i) := by
  by_cases hi : i = r
  · subst hi
    rwa [set_self, set_self]
  · rw [set_of_ne regs a hi, set_of_ne regs' b hi]
    exact h i

end Registers

/-- `create` starts over with an empty buffer and `configure` with one that has a policy, `adopt`
takes a list over, `drain` gives the items away and leaves an empty buffer. -/
inductive Command
  | on (r : Nat) (op : Buffer.Op)
  | create (r : Nat)
  | configure (r : Nat) (strategy : Strategy) (limit : Option Nat)
  | adopt (r : Nat) (vs : List UInt64)
  | drain (r : Nat)
  | copy (r source : Nat)
  | compare (r other : Nat)
deriving DecidableEq

namespace Command

/-- The register that a command is about, which is the only one it may write. -/
def register : Command → Nat
  | .on r _ | .create r | .configure r .. | .adopt r _ | .drain r | .copy r _ | .compare r _ => r

def step (memory : Memory) (regs : Registers) : Command → Outcome Registers Reply
  | .on r op => ((regs r).step memory op).within (regs.set r)
  | .create r => .done (regs.set r .empty) .unit
  | .configure r strategy limit =>
    match Policy.make strategy limit with
    | .ok policy => .done (regs.set r (.empty policy)) .unit
    | .error cause => .failed regs (.invalidLimit cause)
  | .adopt r vs => .done (regs.set r (.ofList vs)) .unit
  | .drain r => .done (regs.set r .empty) (.values (regs r).items)
  | .copy r source => .done (regs.set r (regs source)) .unit
  | .compare r other => .done regs (.flag (regs r == regs other))

theorem step_configure_of_ok (memory : Memory) (regs : Registers) (r : Nat) {strategy : Strategy}
    {limit : Option Nat} {policy : Policy} (h : Policy.make strategy limit = .ok policy) :
    (configure r strategy limit).step memory regs = .done (regs.set r (.empty policy)) .unit := by
  rw [step, h]

theorem step_configure_of_error (memory : Memory) (regs : Registers) (r : Nat)
    {strategy : Strategy} {limit : Option Nat} {cause : LimitError}
    (h : Policy.make strategy limit = .error cause) :
    (configure r strategy limit).step memory regs = .failed regs (.invalidLimit cause) := by
  rw [step, h]

/-- What is no operation asks nothing of the memory. -/
theorem step_congr_memory {cmd : Command} (hcmd : ∀ r op, cmd ≠ .on r op) (memory memory' : Memory)
    (regs : Registers) : cmd.step memory regs = cmd.step memory' regs := by
  cases cmd with
  | on r op => exact absurd rfl (hcmd r op)
  | _ => rfl

/-- A command that is no operation sees of the buffers only their items, and what it makes of one
state it makes of another. Where related buffers have the same items, it cannot tell the states
apart. -/
theorem rel_step {R : Buffer → Buffer → Prop} (hrefl : ∀ b, R b b)
    (hitems : ∀ {a b}, R a b → a.items = b.items) {regs regs' : Registers}
    (h : ∀ i, R (regs i) (regs' i)) (memory : Memory) (cmd : Command)
    (hcmd : ∀ r op, cmd ≠ .on r op) :
    (cmd.step memory regs).result = (cmd.step memory regs').result ∧
      (∀ i, R ((cmd.step memory regs).state i) ((cmd.step memory regs').state i)) ∧
      (cmd.step memory regs).log = [] ∧ (cmd.step memory regs').log = [] := by
  have same (b : Buffer) (r i : Nat) : R (regs.set r b i) (regs'.set r b i) :=
    Registers.rel_set h (hrefl b) r i
  cases cmd with
  | on r op => exact absurd rfl (hcmd r op)
  | configure r strategy limit =>
    cases hp : Policy.make strategy limit with
    | ok policy =>
      rw [step_configure_of_ok memory regs r hp, step_configure_of_ok memory regs' r hp]
      exact ⟨rfl, same _ r, rfl, rfl⟩
    | error cause =>
      rw [step_configure_of_error memory regs r hp, step_configure_of_error memory regs' r hp]
      exact ⟨rfl, h, rfl, rfl⟩
  | create r | adopt r vs => exact ⟨rfl, same _ r, rfl, rfl⟩
  | drain r =>
    exact ⟨congrArg (fun xs => Except.ok (Reply.values xs)) (hitems (h r)), same _ r, rfl, rfl⟩
  | copy r source => exact ⟨rfl, Registers.rel_set h (h source) r, rfl, rfl⟩
  | compare r other =>
    have hequal : (regs r == regs other) = (regs' r == regs' other) := by
      show ((regs r).items == (regs other).items) = ((regs' r).items == (regs' other).items)
      rw [hitems (h r), hitems (h other)]
    exact ⟨congrArg (fun yes => Except.ok (Reply.flag yes)) hequal, h, rfl, rfl⟩

end Command

end SlotBuffer
