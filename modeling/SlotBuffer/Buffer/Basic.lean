import SlotBuffer.Policy
import SlotBuffer.Scan
import SlotBuffer.Slots

/-! A buffer is an array of slots, of which the first `len` are live. The live slots are its items;
the spare ones behind them keep whatever was written there last. -/

namespace SlotBuffer

structure Buffer where
  slots : Array UInt64 := #[]
  len : Nat := 0
  policy : Policy := {}
  len_le : len ≤ slots.size := by simp
deriving DecidableEq

namespace Buffer

/-! ### Views -/

def capacity (b : Buffer) : Nat := b.slots.size

def items (b : Buffer) : List UInt64 := b.slots.toList.take b.len

def spare (b : Buffer) : List UInt64 := b.slots.toList.drop b.len

theorem len_le_capacity (b : Buffer) : b.len ≤ b.capacity := b.len_le

/-! ### Queries -/

def isEmpty (b : Buffer) : Bool := b.len == 0

def get? (b : Buffer) (i : Nat) : Option UInt64 := b.items[i]?

def firstIndex? (b : Buffer) (v : UInt64) : Option Nat := b.items.idxOf? v

def lastIndex? (b : Buffer) (v : UInt64) : Option Nat := lastIdxOf? v b.items

def contains (b : Buffer) (v : UInt64) : Bool := (b.lastIndex? v).isSome

/-- Two buffers are equal as lists when they hold the same items; spare slots and policy may
differ. -/
instance : BEq Buffer where
  beq a b := a.items == b.items

/-! ### Whole buffers -/

/-- The buffer without slots. -/
def empty (policy : Policy := {}) : Buffer := { policy }

/-- The buffer with exactly these items and no spare slot. -/
def ofList (vs : List UInt64) : Buffer where
  slots := vs.toArray
  len := vs.length
  len_le := by simp

/-- Drops the items and keeps the slots. -/
def clear (b : Buffer) : Buffer := { b with len := 0, len_le := Nat.zero_le _ }

/-- Gives the slots back and keeps the policy. -/
def destroy (b : Buffer) : Buffer := empty b.policy

/-! ### Writing and the boundary -/

/-- Lays the values over the slots from `start` on, as many as there are. -/
def write (b : Buffer) (start : Nat) (vs : List UInt64) : Buffer :=
  { b with slots := overwrite b.slots start vs, len_le := by simpa using b.len_le }

/-- Lays the values over the first spare slots. -/
def fill (b : Buffer) (vs : List UInt64) : Buffer := b.write b.len vs

/-- Makes the next `count` spare slots live, as many as there are. -/
def advance (b : Buffer) (count : Nat) : Buffer :=
  { b with len := min (b.len + count) b.capacity, len_le := Nat.min_le_right .. }

/-- Makes the last item a spare slot. -/
def retreat (b : Buffer) : Buffer :=
  { b with len := b.len - 1, len_le := Nat.le_trans (Nat.sub_le ..) b.len_le }

end Buffer

end SlotBuffer
