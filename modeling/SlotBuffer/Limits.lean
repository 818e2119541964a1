/-! Bounds on a buffer. A length is a 64-bit word, a slot takes eight bytes, and one allocation
spans at most half of the address space. A capacity limit is therefore a number of slots from one
to `maxSlots`: a smaller one would forbid every allocation, a larger one could never be reached. -/

namespace SlotBuffer

/-- The largest length that a word holds, `2 ^ 64 - 1`. -/
def maxLength : Nat := UInt64.size - 1

/-- The most slots that one allocation holds, `2 ^ 60 - 1`. -/
def maxSlots : Nat := UInt64.size / 16 - 1

/-- Twice an allocation is still a length, so neither doubling nor adding two lengths overflows. -/
theorem two_mul_maxSlots_le : 2 * maxSlots ≤ maxLength := by decide

structure CapacityLimit where
  slots : Nat
  pos : 1 ≤ slots
  le_max : slots ≤ maxSlots
deriving DecidableEq

inductive LimitError
  | zero
  | unreachable (slots : Nat)
deriving DecidableEq

def LimitError.message : LimitError → String
  | .zero => "max_capacity must be at least 1, a limit of 0 forbids any allocation"
  | .unreachable slots =>
    s!"max_capacity {slots} exceeds the largest possible allocation of {maxSlots} slots"

namespace CapacityLimit

def ofNat (slots : Nat) : Except LimitError CapacityLimit :=
  if pos : 1 ≤ slots then
    if le_max : slots ≤ maxSlots then .ok ⟨slots, pos, le_max⟩ else .error (.unreachable slots)
  else .error .zero

theorem ofNat_eq_ok_iff {slots : Nat} {limit : CapacityLimit} :
    ofNat slots = .ok limit ↔ limit.slots = slots := by
  obtain ⟨s, pos, le_max⟩ := limit
  unfold ofNat
  split
  · split
    · simp [eq_comm]
    · simp only [reduceCtorEq, false_iff]; omega
  · simp only [reduceCtorEq, false_iff]; omega

end CapacityLimit

end SlotBuffer
