import SlotBuffer.Contents

/-! Room for more items, as a relation. Asking for it has one of three ends: there are spare slots
enough, the buffer grows to a capacity that is stated outright, or the request is refused for the
first of four causes. `room_iff` says that the computed answer is the one end that applies. -/

namespace SlotBuffer

/-- So many slots, but none beyond the limit. -/
def CapacityLimit.clamp : Option CapacityLimit → Nat → Nat
  | none, slots => slots
  | some limit, slots => min slots limit.slots

theorem CapacityLimit.le_clamp {limit : Option CapacityLimit} {slots n : Nat}
    (h : ∀ l ∈ limit, n ≤ l.slots) (hn : n ≤ slots) : n ≤ clamp limit slots := by
  cases limit with
  | none => exact hn
  | some l => exact Nat.le_min.2 ⟨hn, h l rfl⟩

theorem CapacityLimit.clamp_le_limit {limit : Option CapacityLimit} {l : CapacityLimit}
    (h : l ∈ limit) (slots : Nat) : clamp limit slots ≤ l.slots := by
  cases h
  exact Nat.min_le_right ..

theorem Policy.nextCapacity_eq (policy : Policy) (capacity target : Nat) :
    policy.nextCapacity capacity target =
      CapacityLimit.clamp policy.limit (max target (2 * capacity)) := by
  unfold nextCapacity
  cases policy.limit <;> rfl

namespace Contents

/-! ### The three ends -/

/-- The capacity that growing for `additional` more items leads to. -/
def grownCapacity (c : Contents) (additional : Nat) : Nat :=
  CapacityLimit.clamp c.policy.limit (max (c.items.length + additional) (2 * c.capacity))

/-- The spare slots are too few, and the length that is asked for is a word. -/
structure Short (c : Contents) (additional : Nat) : Prop where
  le_maxLength : c.items.length + additional ≤ maxLength
  capacity_lt : c.capacity < c.items.length + additional

/-- The length that is asked for breaks no limit. -/
def Within (c : Contents) (additional : Nat) : Prop :=
  ∀ limit ∈ c.policy.limit, c.items.length + additional ≤ limit.slots

structure Grows (memory : Memory) (c : Contents) (additional : Nat) : Prop where
  short : c.Short additional
  within : c.Within additional
  le_maxSlots : c.grownCapacity additional ≤ maxSlots
  serves : memory.serves (c.grownCapacity additional) = true

/-- Each cause presupposes that none of those before it applies. -/
inductive Refused (memory : Memory) (c : Contents) (additional : Nat) : Failure → Prop
  | lengthOverflow (h : maxLength < c.items.length + additional) :
      Refused memory c additional (.lengthOverflow c.items.length additional)
  | overLimit {limit : CapacityLimit} (short : c.Short additional) (hl : limit ∈ c.policy.limit)
      (h : limit.slots < c.items.length + additional) :
      Refused memory c additional (.overLimit (c.items.length + additional) limit.slots)
  | tooLarge (short : c.Short additional) (within : c.Within additional)
      (h : maxSlots < c.grownCapacity additional) :
      Refused memory c additional (.allocation .tooLarge)
  | exhausted (short : c.Short additional) (within : c.Within additional)
      (h : c.grownCapacity additional ≤ maxSlots)
      (hs : memory.serves (c.grownCapacity additional) = false) :
      Refused memory c additional (.allocation .exhausted)

inductive Room (memory : Memory) (c : Contents) (additional : Nat) :
    Except Failure Contents → Prop
  | enough (hlen : c.items.length + additional ≤ maxLength)
      (hcap : c.items.length + additional ≤ c.capacity) : Room memory c additional (.ok c)
  | grown (h : c.Grows memory additional) :
      Room memory c additional (.ok (c.growTo (c.grownCapacity additional)))
  | refused {cause : Failure} (h : c.Refused memory additional cause) :
      Room memory c additional (.error cause)

/-! ### The relation and the function -/

variable {memory : Memory} {c : Contents} {additional : Nat}

theorem nextCapacity_eq_grownCapacity (c : Contents) (additional : Nat) :
    c.policy.nextCapacity c.capacity (c.items.length + additional) =
      c.grownCapacity additional := c.policy.nextCapacity_eq ..

theorem within_iff_exceeded?_eq_none :
    c.Within additional ↔ c.policy.exceeded? (c.items.length + additional) = none :=
  Policy.exceeded?_eq_none_iff.symm

/-- With too few spare slots the limit decides first and the memory next. -/
theorem makeRoom_of_short (h : c.Short additional) :
    c.makeRoom memory additional =
      match c.policy.exceeded? (c.items.length + additional),
        memory.allocate (c.grownCapacity additional) with
      | some limit, _ => .error (.overLimit (c.items.length + additional) limit.slots)
      | none, .error cause => .error (.allocation cause)
      | none, .ok () => .ok (c.growTo (c.grownCapacity additional)) := by
  rw [← nextCapacity_eq_grownCapacity]
  exact (if_neg (Nat.not_lt.2 h.le_maxLength)).trans (if_neg (Nat.not_le.2 h.capacity_lt))

theorem makeRoom_of_refused {cause : Failure} (h : c.Refused memory additional cause) :
    c.makeRoom memory additional = .error cause := by
  cases h with
  | lengthOverflow h => exact if_pos h
  | overLimit short hl h =>
    rw [makeRoom_of_short short, Policy.exceeded?_eq_some_iff.2 ⟨hl, h⟩]
  | tooLarge short within h =>
    rw [makeRoom_of_short short, within_iff_exceeded?_eq_none.1 within,
      Memory.allocate_of_maxSlots_lt h]
  | exhausted short within h hs =>
    rw [makeRoom_of_short short, within_iff_exceeded?_eq_none.1 within,
      Memory.allocate_of_not_serves h hs]

theorem makeRoom_of_room {r : Except Failure Contents} (h : Room memory c additional r) :
    c.makeRoom memory additional = r := by
  cases h with
  | enough hlen hcap => rw [makeRoom, if_neg (Nat.not_lt.2 hlen), if_pos hcap]
  | grown h =>
    rw [makeRoom_of_short h.short, within_iff_exceeded?_eq_none.1 h.within,
      Memory.allocate_of_serves h.le_maxSlots h.serves]
  | refused h => exact makeRoom_of_refused h

/-- Some end always applies. -/
theorem exists_room (memory : Memory) (c : Contents) (additional : Nat) :
    ∃ r, Room memory c additional r := by
  rcases Nat.lt_or_ge maxLength (c.items.length + additional) with hlen | hlen
  · exact ⟨_, .refused (.lengthOverflow hlen)⟩
  rcases Nat.lt_or_ge c.capacity (c.items.length + additional) with hcap | hcap
  · have short : c.Short additional := ⟨hlen, hcap⟩
    cases hl : c.policy.exceeded? (c.items.length + additional) with
    | some limit =>
      obtain ⟨hmem, hlt⟩ := Policy.exceeded?_eq_some_iff.1 hl
      exact ⟨_, .refused (.overLimit short hmem hlt)⟩
    | none =>
      have within := within_iff_exceeded?_eq_none.2 hl
      rcases Nat.lt_or_ge maxSlots (c.grownCapacity additional) with hmax | hmax
      · exact ⟨_, .refused (.tooLarge short within hmax)⟩
      cases hs : memory.serves (c.grownCapacity additional) with
      | false => exact ⟨_, .refused (.exhausted short within hmax hs)⟩
      | true => exact ⟨_, .grown ⟨short, within, hmax, hs⟩⟩
  · exact ⟨_, .enough hlen hcap⟩

theorem room_ok_or_error (memory : Memory) (c : Contents) (additional : Nat) :
    (∃ d, Room memory c additional (.ok d)) ∨
      ∃ cause, Room memory c additional (.error cause) := by
  obtain ⟨r, hr⟩ := exists_room memory c additional
  cases r with
  | ok d => exact .inl ⟨d, hr⟩
  | error cause => exact .inr ⟨cause, hr⟩

theorem room_iff {r : Except Failure Contents} :
    Room memory c additional r ↔ c.makeRoom memory additional = r := by
  constructor
  · exact makeRoom_of_room
  · rintro rfl
    obtain ⟨r, hr⟩ := exists_room memory c additional
    rwa [makeRoom_of_room hr]

/-! ### What making room does -/

theorem capacity_growTo {capacity : Nat} (h : c.capacity ≤ capacity) :
    (c.growTo capacity).capacity = capacity := by
  simp only [Contents.capacity, growTo, List.length_append, List.length_replicate] at h ⊢
  omega

theorem Grows.le_grownCapacity (h : c.Grows memory additional) :
    c.items.length + additional ≤ c.grownCapacity additional :=
  CapacityLimit.le_clamp h.within (Nat.le_max_left ..)

theorem Grows.capacity_lt (h : c.Grows memory additional) :
    c.capacity < c.grownCapacity additional :=
  Nat.lt_of_lt_of_le h.short.capacity_lt h.le_grownCapacity

/-- A success leaves the capacity as it is or raises it to the one that the policy says, and there
are spare slots enough after it. -/
theorem Room.capacity_cases {d : Contents} (h : Room memory c additional (.ok d)) :
    c.items.length + additional ≤ d.capacity ∧
      (d.capacity = c.capacity ∨
        c.Grows memory additional ∧ d.capacity = c.grownCapacity additional) := by
  cases h with
  | enough _ hcap => exact ⟨hcap, .inl rfl⟩
  | grown h =>
    have hcap := capacity_growTo (Nat.le_of_lt h.capacity_lt)
    exact ⟨Nat.le_trans h.le_grownCapacity (Nat.le_of_eq hcap.symm), .inr ⟨h, hcap⟩⟩

/-- Making room touches neither the items nor the policy. -/
theorem Room.items_eq {d : Contents} (h : Room memory c additional (.ok d)) :
    d.items = c.items := by
  cases h <;> rfl

theorem Room.policy_eq {d : Contents} (h : Room memory c additional (.ok d)) :
    d.policy = c.policy := by
  cases h <;> rfl

end Contents

end SlotBuffer
