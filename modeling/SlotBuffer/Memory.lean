import SlotBuffer.Policy

/-! Where slots come from. A memory serves a request by the number of slots asked for and by
nothing else, and no memory serves more than `maxSlots`. -/

namespace SlotBuffer

structure Memory where
  serves : Nat → Bool

inductive AllocationError
  | tooLarge
  | exhausted
deriving DecidableEq

def AllocationError.message : AllocationError → String
  | .tooLarge =>
    "memory allocation failed because the computed capacity exceeded the collection's maximum"
  | .exhausted => "memory allocation failed because the memory allocator returned an error"

namespace Memory

/-- The memory that serves requests of up to `slots` slots. -/
def upTo (slots : Nat) : Memory where
  serves n := n ≤ slots

def allocate (memory : Memory) (slots : Nat) : Except AllocationError Unit :=
  if maxSlots < slots then .error .tooLarge
  else if memory.serves slots then .ok ()
  else .error .exhausted

/-- An allocation of `held` slots is extended by `extra` more. -/
def extend (memory : Memory) (held extra : Nat) : Except AllocationError Unit :=
  memory.allocate (held + extra)

theorem allocate_of_maxSlots_lt {memory : Memory} {slots : Nat} (h : maxSlots < slots) :
    memory.allocate slots = .error .tooLarge := if_pos h

theorem allocate_of_not_serves {memory : Memory} {slots : Nat} (h : slots ≤ maxSlots)
    (hs : memory.serves slots = false) : memory.allocate slots = .error .exhausted := by
  rw [allocate, if_neg (Nat.not_lt.2 h), hs]
  rfl

theorem allocate_of_serves {memory : Memory} {slots : Nat} (h : slots ≤ maxSlots)
    (hs : memory.serves slots = true) : memory.allocate slots = .ok () := by
  rw [allocate, if_neg (Nat.not_lt.2 h), hs]
  rfl

theorem allocate_eq_ok_iff {memory : Memory} {slots : Nat} :
    memory.allocate slots = .ok () ↔ slots ≤ maxSlots ∧ memory.serves slots = true := by
  rcases Nat.lt_or_ge maxSlots slots with hlt | hle
  · simp [allocate_of_maxSlots_lt hlt, Nat.not_le.2 hlt]
  · cases hs : memory.serves slots with
    | false => simp [allocate_of_not_serves hle hs]
    | true => simp [allocate_of_serves hle hs, hle]

@[simp] theorem serves_upTo {slots n : Nat} : (upTo slots).serves n = true ↔ n ≤ slots :=
  decide_eq_true_iff

end Memory

end SlotBuffer
