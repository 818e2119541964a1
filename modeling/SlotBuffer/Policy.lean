import SlotBuffer.Limits

/-! How a buffer grows: where the slots of a larger buffer come from, and how many there may be. -/

namespace SlotBuffer

/-- `inPlace` extends the allocation that holds the slots; `copying` allocates anew and copies the
slots over. -/
inductive Strategy
  | inPlace
  | copying
deriving DecidableEq

namespace Strategy

/-- The name in a log. -/
def label : Strategy → String
  | .inPlace => "realloc"
  | .copying => "copy-on-grow"

/-- The name in a description, and in a script. -/
def name : Strategy → String
  | .inPlace => "Realloc"
  | .copying => "CopyOnGrow"

theorem label_inj {s t : Strategy} : s.label = t.label ↔ s = t := by
  cases s <;> cases t <;> decide

theorem name_inj {s t : Strategy} : s.name = t.name ↔ s = t := by
  cases s <;> cases t <;> decide

end Strategy

structure Policy where
  strategy : Strategy := .inPlace
  limit : Option CapacityLimit := none
deriving DecidableEq

namespace Policy

/-- The policy with a limit of so many slots, where one is given. -/
def make (strategy : Strategy) : Option Nat → Except LimitError Policy
  | none => .ok { strategy }
  | some slots => (CapacityLimit.ofNat slots).map fun limit => { strategy, limit }

theorem make_parts (policy : Policy) :
    make policy.strategy (policy.limit.map (·.slots)) = .ok policy := by
  obtain ⟨strategy, limit⟩ := policy
  cases limit with
  | none => rfl
  | some limit => rw [Option.map_some, make, CapacityLimit.ofNat_eq_ok_iff.2 rfl]; rfl

theorem make_eq_ok_iff {strategy : Strategy} {limit : Option Nat} {policy : Policy} :
    make strategy limit = .ok policy ↔
      policy.strategy = strategy ∧ policy.limit.map (·.slots) = limit := by
  constructor
  · intro h
    cases limit with
    | none =>
      cases h
      exact ⟨rfl, rfl⟩
    | some slots =>
      rw [make] at h
      cases hslots : CapacityLimit.ofNat slots with
      | ok l =>
        rw [hslots] at h
        cases h
        exact ⟨rfl, congrArg some (CapacityLimit.ofNat_eq_ok_iff.1 hslots)⟩
      | error cause =>
        rw [hslots] at h
        cases h
  · rintro ⟨rfl, rfl⟩
    exact make_parts policy

/-- The limit that a capacity of `slots` would break. -/
def exceeded? (policy : Policy) (slots : Nat) : Option CapacityLimit :=
  policy.limit.filter (·.slots < slots)

/-- The capacity that follows `capacity` when `target` slots are needed: twice as many slots, or
`target` where that is more, but none beyond the limit. -/
def nextCapacity (policy : Policy) (capacity target : Nat) : Nat :=
  let wanted := max target (2 * capacity)
  match policy.limit with
  | none => wanted
  | some limit => min wanted limit.slots

theorem exceeded?_eq_none_iff {policy : Policy} {slots : Nat} :
    policy.exceeded? slots = none ↔ ∀ limit ∈ policy.limit, slots ≤ limit.slots := by
  simp [exceeded?, Option.filter_eq_none_iff]

theorem exceeded?_eq_some_iff {policy : Policy} {slots : Nat} {limit : CapacityLimit} :
    policy.exceeded? slots = some limit ↔ policy.limit = some limit ∧ limit.slots < slots := by
  simp [exceeded?, Option.filter_eq_some_iff]

/-- Clamping never cuts into what is needed. -/
theorem le_nextCapacity {policy : Policy} {capacity target : Nat}
    (h : policy.exceeded? target = none) : target ≤ policy.nextCapacity capacity target := by
  have h := exceeded?_eq_none_iff.1 h
  unfold nextCapacity
  split
  next => exact Nat.le_max_left ..
  next limit hl => exact Nat.le_min.2 ⟨Nat.le_max_left .., h limit hl⟩

theorem nextCapacity_le {policy : Policy} {capacity target : Nat} {limit : CapacityLimit}
    (h : policy.limit = some limit) : policy.nextCapacity capacity target ≤ limit.slots := by
  simp only [nextCapacity, h]
  exact Nat.min_le_right ..

theorem nextCapacity_zero {policy : Policy} {target : Nat}
    (h : ∀ limit ∈ policy.limit, target ≤ limit.slots) : policy.nextCapacity 0 target = target := by
  unfold nextCapacity
  split
  next => exact Nat.max_zero _
  next limit hl => exact (congrArg (min · _) (Nat.max_zero _)).trans (Nat.min_eq_left (h limit hl))

end Policy

end SlotBuffer
