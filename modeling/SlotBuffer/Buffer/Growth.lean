import SlotBuffer.Buffer.Lemmas
import SlotBuffer.Outcome

/-! Room for more items. A buffer that lacks spare slots grows: the policy says to which capacity,
the memory whether it can be had, and the slots that are new hold zero. `makeRoom_cases` says all
that can come of it. -/

namespace SlotBuffer

/-! ### Two ways of growing -/

namespace Strategy

/-- What growing from `before` to `after` slots asks of the memory. -/
def request (strategy : Strategy) (memory : Memory) (before after : Nat) :
    Except AllocationError Unit :=
  match strategy with
  | .inPlace => memory.extend before (after - before)
  | .copying => memory.allocate after

/-- Either way the memory is asked for the new capacity in the end. -/
theorem request_eq_allocate (strategy : Strategy) (memory : Memory) {before after : Nat}
    (h : before ≤ after) : strategy.request memory before after = memory.allocate after := by
  cases strategy with
  | inPlace => rw [request, Memory.extend, Nat.add_sub_cancel' h]
  | copying => rfl

/-- The slots followed by `extra` new ones. -/
def enlarge (strategy : Strategy) (slots : Array UInt64) (extra : Nat) : Array UInt64 :=
  match strategy with
  | .inPlace => slots ++ Array.replicate extra 0
  | .copying => overwrite (Array.replicate (slots.size + extra) 0) 0 slots.toList

@[simp] theorem size_enlarge (strategy : Strategy) (slots : Array UInt64) (extra : Nat) :
    (strategy.enlarge slots extra).size = slots.size + extra := by
  cases strategy <;> simp [enlarge]

theorem toList_enlarge (strategy : Strategy) (slots : Array UInt64) (extra : Nat) :
    (strategy.enlarge slots extra).toList = slots.toList ++ List.replicate extra 0 := by
  cases strategy <;> simp [enlarge, toList_overwrite, List.take_of_length_le]

end Strategy

namespace Buffer

/-- The buffer with `extra` spare slots more. -/
def enlarge (b : Buffer) (extra : Nat) : Buffer :=
  { b with
    slots := b.policy.strategy.enlarge b.slots extra
    len_le := by have := b.len_le; simp; omega }

@[simp] theorem capacity_enlarge (b : Buffer) (extra : Nat) :
    (b.enlarge extra).capacity = b.capacity + extra := by simp [enlarge, capacity]

@[simp] theorem items_enlarge (b : Buffer) (extra : Nat) : (b.enlarge extra).items = b.items := by
  have := b.len_le
  simp [items, enlarge, Strategy.toList_enlarge, List.take_append_of_le_length, this]

@[simp] theorem spare_enlarge (b : Buffer) (extra : Nat) :
    (b.enlarge extra).spare = b.spare ++ List.replicate extra 0 := by
  have := b.len_le
  simp [spare, enlarge, Strategy.toList_enlarge, List.drop_append_of_le_length, this]

@[simp] theorem len_enlarge (b : Buffer) (extra : Nat) : (b.enlarge extra).len = b.len := rfl

@[simp] theorem policy_enlarge (b : Buffer) (extra : Nat) :
    (b.enlarge extra).policy = b.policy := rfl

theorem enlarge_zero (b : Buffer) : b.enlarge 0 = b := ext_views (by simp) (by simp) rfl

/-! ### Making room -/

variable (memory : Memory)

/-- Grows to at least `target` slots. The limit is held against what is needed, and only clamps what
doubling would add. -/
def grow (b : Buffer) (target : Nat) : Outcome Buffer Unit :=
  match b.policy.exceeded? target with
  | some limit =>
    (Outcome.failed b (.overLimit target limit.slots)).logging (.overLimit target limit.slots)
  | none =>
    let capacity := b.policy.nextCapacity b.capacity target
    match b.policy.strategy.request memory b.capacity capacity with
    | .error cause => (Outcome.failed b (.allocation cause)).logging (.refused cause capacity)
    | .ok () =>
      (Outcome.done (b.enlarge (capacity - b.capacity)) ()).logging
        (.grew b.capacity capacity b.policy.strategy)

/-- Sees to it that `additional` slots are spare. -/
def makeRoom (b : Buffer) (additional : Nat) : Outcome Buffer Unit :=
  let target := b.len + additional
  if maxLength < target then .failed b (.lengthOverflow b.len additional)
  else if target ≤ b.capacity then .done b ()
  else b.grow memory target

theorem makeRoom_of_overflow {b : Buffer} {additional : Nat}
    (h : maxLength < b.len + additional) :
    b.makeRoom memory additional = .failed b (.lengthOverflow b.len additional) := by
  simp [makeRoom, h]

theorem makeRoom_of_le {b : Buffer} {additional : Nat} (h : b.len + additional ≤ maxLength)
    (hc : b.len + additional ≤ b.capacity) : b.makeRoom memory additional = .done b () := by
  simp [makeRoom, Nat.not_lt.2 h, hc]

theorem makeRoom_of_gt {b : Buffer} {additional : Nat} (h : b.len + additional ≤ maxLength)
    (hc : b.capacity < b.len + additional) :
    b.makeRoom memory additional = b.grow memory (b.len + additional) := by
  simp [makeRoom, Nat.not_lt.2 h, Nat.not_le.2 hc]

theorem grow_of_exceeded {b : Buffer} {target : Nat} {limit : CapacityLimit}
    (h : b.policy.exceeded? target = some limit) :
    b.grow memory target =
      ⟨.error (.overLimit target limit.slots), b, [.overLimit target limit.slots]⟩ := by
  simp [grow, h, Outcome.failed, Outcome.logging]

/-- Growing succeeds just when the memory grants the request, and leaves a buffer with the capacity
that the policy says. -/
theorem grow_of_granted {b : Buffer} {target : Nat} (h : b.policy.exceeded? target = none)
    (hr : b.policy.strategy.request memory b.capacity
      (b.policy.nextCapacity b.capacity target) = .ok ()) :
    b.grow memory target =
      ⟨.ok (), b.enlarge (b.policy.nextCapacity b.capacity target - b.capacity),
        [.grew b.capacity (b.policy.nextCapacity b.capacity target) b.policy.strategy]⟩ := by
  simp [grow, h, hr, Outcome.done, Outcome.logging]

/-- Under either strategy it is enough that the memory serves the new capacity. -/
theorem grow_of_serves {b : Buffer} {target : Nat} (hcap : b.capacity ≤ target)
    (h : b.policy.exceeded? target = none)
    (hmax : b.policy.nextCapacity b.capacity target ≤ maxSlots)
    (hs : memory.serves (b.policy.nextCapacity b.capacity target) = true) :
    b.grow memory target =
      ⟨.ok (), b.enlarge (b.policy.nextCapacity b.capacity target - b.capacity),
        [.grew b.capacity (b.policy.nextCapacity b.capacity target) b.policy.strategy]⟩ := by
  apply grow_of_granted memory h
  rw [Strategy.request_eq_allocate _ _ (Nat.le_trans hcap (Policy.le_nextCapacity h)),
    Memory.allocate_of_serves hmax hs]

theorem grow_of_refused {b : Buffer} {target : Nat} {cause : AllocationError}
    (h : b.policy.exceeded? target = none)
    (hr : b.policy.strategy.request memory b.capacity
      (b.policy.nextCapacity b.capacity target) = .error cause) :
    b.grow memory target =
      ⟨.error (.allocation cause), b,
        [.refused cause (b.policy.nextCapacity b.capacity target)]⟩ := by
  simp [grow, h, hr, Outcome.failed, Outcome.logging]

/-- Growing either succeeds with the capacity that the policy says, or leaves the buffer as it
was. -/
theorem grow_cases (b : Buffer) (target : Nat) :
    (∃ cause, (b.grow memory target).result = .error cause ∧ (b.grow memory target).state = b) ∨
      (b.grow memory target).result = .ok () ∧
        target ≤ b.policy.nextCapacity b.capacity target ∧
        (b.grow memory target).state =
          b.enlarge (b.policy.nextCapacity b.capacity target - b.capacity) := by
  cases h : b.policy.exceeded? target with
  | some limit => simp [grow_of_exceeded memory h]
  | none =>
    cases hr : b.policy.strategy.request memory b.capacity
        (b.policy.nextCapacity b.capacity target) with
    | error cause => simp [grow_of_refused memory h hr]
    | ok => simp [grow_of_granted memory h hr, Policy.le_nextCapacity h]

/-- Making room either fails and leaves the buffer as it was, or leaves enough spare slots and the
items where they were. -/
theorem makeRoom_cases (b : Buffer) (additional : Nat) :
    (∃ cause, (b.makeRoom memory additional).result = .error cause ∧
        (b.makeRoom memory additional).state = b) ∨
      (b.makeRoom memory additional).result = .ok () ∧
        b.len + additional ≤ (b.makeRoom memory additional).state.capacity ∧
        ∃ extra, (b.makeRoom memory additional).state = b.enlarge extra := by
  rcases Nat.lt_or_ge maxLength (b.len + additional) with hlen | hlen
  · simp [makeRoom_of_overflow memory hlen, Outcome.failed]
  rcases Nat.lt_or_ge b.capacity (b.len + additional) with hcap | hcap
  · rw [makeRoom_of_gt memory hlen hcap]
    rcases b.grow_cases memory (b.len + additional) with h | ⟨hok, hle, hstate⟩
    · exact Or.inl h
    · refine Or.inr ⟨hok, ?_, _, hstate⟩
      rw [hstate, capacity_enlarge]
      omega
  · rw [makeRoom_of_le memory hlen hcap]
    exact Or.inr ⟨rfl, hcap, 0, (enlarge_zero b).symm⟩

@[simp] theorem len_makeRoom (b : Buffer) (additional : Nat) :
    (b.makeRoom memory additional).state.len = b.len := by
  rcases b.makeRoom_cases memory additional with ⟨_, _, hstate⟩ | ⟨_, _, extra, hstate⟩
  · rw [hstate]
  · rw [hstate, len_enlarge]

theorem le_maxLength_of_makeRoom {b : Buffer} {additional : Nat}
    (h : (b.makeRoom memory additional).result = .ok ()) : b.len + additional ≤ maxLength := by
  rcases Nat.lt_or_ge maxLength (b.len + additional) with hlen | hlen
  · rw [makeRoom_of_overflow memory hlen] at h
    cases h
  · exact hlen

/-- What a success of making room leaves. -/
theorem makeRoom_of_ok {b : Buffer} {additional : Nat}
    (h : (b.makeRoom memory additional).result = .ok ()) :
    b.len + additional ≤ (b.makeRoom memory additional).state.capacity ∧
      ∃ extra, (b.makeRoom memory additional).state = b.enlarge extra := by
  rcases b.makeRoom_cases memory additional with ⟨_, hres, _⟩ | ⟨_, hroom⟩
  · rw [hres] at h
    cases h
  · exact hroom

end Buffer

end SlotBuffer
