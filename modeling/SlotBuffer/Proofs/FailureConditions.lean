import SlotBuffer.Proofs.Invariant

/-! When operations fail, and why. Whatever asks for room is answered in one order: the length that
is asked for has to be a word, spare slots that are there are enough, the limit is held against that
length, and the memory against the capacity that growing leads to. `RoomOutcome` says all this in
numbers, and the other operations fail when asking for room does. -/

namespace SlotBuffer

/-! ### Causes -/

/-- Causes that only growing has. -/
def Failure.OfGrowth : Failure → Prop
  | .overLimit .. | .allocation _ => True
  | _ => False

theorem AllocationError.message_injective : Function.Injective message := by
  intro x y h
  cases x <;> cases y <;> first | rfl | exact absurd h (by decide)

namespace Contents

variable {memory : Memory} {c : Contents} {additional : Nat} {cause : Failure}

theorem room_error_iff :
    Room memory c additional (.error cause) ↔ c.Refused memory additional cause := by
  constructor
  · intro h
    cases h with
    | refused h => exact h
  · exact .refused

theorem refused_lengthOverflow_iff {len n : Nat} :
    c.Refused memory additional (.lengthOverflow len n) ↔
      maxLength < c.items.length + additional ∧ len = c.items.length ∧ n = additional := by
  constructor
  · intro h
    cases h with
    | lengthOverflow h => exact ⟨h, rfl, rfl⟩
  · rintro ⟨h, rfl, rfl⟩
    exact .lengthOverflow h

theorem refused_overLimit_iff {requested slots : Nat} :
    c.Refused memory additional (.overLimit requested slots) ↔
      c.Short additional ∧ requested = c.items.length + additional ∧ slots < requested ∧
        ∃ limit ∈ c.policy.limit, limit.slots = slots := by
  constructor
  · intro h
    cases h with
    | overLimit short hl h => exact ⟨short, rfl, h, _, hl, rfl⟩
  · rintro ⟨short, rfl, h, limit, hl, rfl⟩
    exact .overLimit short hl h

/-- A memory with at most `maxSlots` refuses whatever is too large anyway. -/
theorem refused_allocation_iff {slots : Nat} (hslots : slots ≤ maxSlots) {why : AllocationError} :
    c.Refused (.upTo slots) additional (.allocation why) ↔
      c.Short additional ∧ c.Within additional ∧ slots < c.grownCapacity additional ∧
        why = if maxSlots < c.grownCapacity additional then .tooLarge else .exhausted := by
  constructor
  · intro h
    cases h with
    | tooLarge short within h =>
      exact ⟨short, within, Nat.lt_of_le_of_lt hslots h, (if_pos h).symm⟩
    | exhausted short within h hs =>
      refine ⟨short, within, ?_, (if_neg (Nat.not_lt.2 h)).symm⟩
      rw [← Bool.not_eq_true, Memory.serves_upTo] at hs
      exact Nat.not_le.1 hs
  · rintro ⟨short, within, h, rfl⟩
    by_cases hmax : maxSlots < c.grownCapacity additional
    · rw [if_pos hmax]
      exact .tooLarge short within hmax
    · rw [if_neg hmax]
      refine .exhausted short within (Nat.not_lt.1 hmax) ?_
      rw [← Bool.not_eq_true, Memory.serves_upTo]
      exact Nat.not_le.2 h

theorem Refused.lengthOverflow_or_ofGrowth (h : c.Refused memory additional cause) :
    (∃ len n, cause = .lengthOverflow len n) ∨ cause.OfGrowth := by
  cases h with
  | lengthOverflow => exact .inl ⟨_, _, rfl⟩
  | overLimit | tooLarge | exhausted => exact .inr trivial

theorem Refused.ofGrowth (h : c.Refused memory additional cause)
    (hlen : c.items.length + additional ≤ maxLength) : cause.OfGrowth := by
  cases h with
  | lengthOverflow h => exact absurd h (Nat.not_lt.2 hlen)
  | overLimit | tooLarge | exhausted => trivial

end Contents

/-! ### Asking for room -/

namespace Buffer

/-- The capacity to which `b` grows for `additional` more items: at least twice as many slots, but
none beyond the limit. -/
def grownCapacity (b : Buffer) (additional : Nat) : Nat :=
  CapacityLimit.clamp b.policy.limit (max (b.len + additional) (2 * b.capacity))

/-- How an outcome on `b` depends on room for `additional` more items, where up to `slots` can be
had from the memory. -/
structure RoomOutcome (slots : Nat) (b : Buffer) (additional : Nat) {α : Type}
    (o : Outcome Buffer α) : Prop where
  lengthOverflow_iff : ∀ len n, o.result = .error (.lengthOverflow len n) ↔
    maxLength < b.len + additional ∧ len = b.len ∧ n = additional
  /-- The limit is held against what is needed, whatever doubling would add. -/
  overLimit_iff : ∀ requested limit, o.result = .error (.overLimit requested limit) ↔
    (b.len + additional ≤ maxLength ∧ b.capacity < b.len + additional) ∧
      requested = b.len + additional ∧ limit < requested ∧
      ∃ l ∈ b.policy.limit, l.slots = limit
  /-- The memory is held against the capacity that growing leads to. -/
  allocation_iff : ∀ why, o.result = .error (.allocation why) ↔
    (b.len + additional ≤ maxLength ∧ b.capacity < b.len + additional) ∧
      (∀ l ∈ b.policy.limit, b.len + additional ≤ l.slots) ∧
      slots < b.grownCapacity additional ∧
      why.message = if maxSlots < b.grownCapacity additional then
        "memory allocation failed because the computed capacity exceeded the collection's maximum"
      else "memory allocation failed because the memory allocator returned an error"
  error_cases : ∀ cause, o.result = .error cause →
    (∃ len n, cause = .lengthOverflow len n) ∨ cause.OfGrowth
  of_le_capacity : b.len + additional ≤ maxLength → b.len + additional ≤ b.capacity →
    (∃ a, o.result = .ok a) ∧ o.state.capacity = b.capacity ∧ o.log = []
  of_grownCapacity_le : b.len + additional ≤ maxLength → b.capacity < b.len + additional →
    (∀ l ∈ b.policy.limit, b.len + additional ≤ l.slots) →
    b.grownCapacity additional ≤ slots →
    (∃ a, o.result = .ok a) ∧ o.state.capacity = b.grownCapacity additional

variable {memory : Memory} {b : Buffer} {additional : Nat} {cause : Failure}

theorem length_items_contents (b : Buffer) : b.contents.items.length = b.len := b.length_items

theorem short_contents :
    b.contents.Short additional ↔
      b.len + additional ≤ maxLength ∧ b.capacity < b.len + additional := by
  rw [← capacity_contents, ← length_items_contents]
  constructor
  · rintro ⟨hlen, hcap⟩
    exact ⟨hlen, hcap⟩
  · rintro ⟨hlen, hcap⟩
    exact ⟨hlen, hcap⟩

theorem within_contents :
    b.contents.Within additional ↔ ∀ l ∈ b.policy.limit, b.len + additional ≤ l.slots := by
  rw [← length_items_contents]
  rfl

theorem grownCapacity_contents (b : Buffer) (additional : Nat) :
    b.contents.grownCapacity additional = b.grownCapacity additional := by
  rw [Contents.grownCapacity, capacity_contents, length_items_contents]
  rfl

theorem makeRoom_eq_error_iff :
    (b.makeRoom memory additional).result = .error cause ↔
      b.contents.Refused memory additional cause := by
  rw [← Contents.room_error_iff, Contents.room_iff, contents_makeRoom]
  cases (b.makeRoom memory additional).result <;> simp [Except.map]

theorem makeRoom_of_short (h : b.contents.Short additional) :
    b.makeRoom memory additional = b.grow memory (b.len + additional) := by
  obtain ⟨hlen, hcap⟩ := short_contents.1 h
  exact makeRoom_of_gt memory hlen hcap

theorem nextCapacity_eq_grownCapacity (b : Buffer) (additional : Nat) :
    b.policy.nextCapacity b.capacity (b.len + additional) = b.grownCapacity additional :=
  b.policy.nextCapacity_eq ..

theorem capacity_lt_of_grows (h : b.contents.Grows memory additional) :
    b.capacity < b.grownCapacity additional := by
  rw [← capacity_contents, ← grownCapacity_contents]
  exact h.capacity_lt

theorem makeRoom_of_grows (h : b.contents.Grows memory additional) :
    b.makeRoom memory additional =
      ⟨.ok (), b.enlarge (b.grownCapacity additional - b.capacity),
        [.grew b.capacity (b.grownCapacity additional) b.policy.strategy]⟩ := by
  have hexceeded := Policy.exceeded?_eq_none_iff.2 (within_contents.1 h.within)
  have hmax := h.le_maxSlots
  have hserves := h.serves
  rw [grownCapacity_contents, ← nextCapacity_eq_grownCapacity] at hmax hserves
  rw [makeRoom_of_short h.short,
    grow_of_serves memory (Nat.le_of_lt (short_contents.1 h.short).2) hexceeded hmax hserves,
    nextCapacity_eq_grownCapacity]

/-- A buffer that grows has the capacity that its policy says. -/
theorem capacity_enlarge_of_grows (h : b.contents.Grows memory additional) :
    (b.enlarge (b.grownCapacity additional - b.capacity)).capacity = b.grownCapacity additional := by
  rw [capacity_enlarge, Nat.add_sub_cancel' (Nat.le_of_lt (capacity_lt_of_grows h))]

theorem roomOutcome_makeRoom {slots : Nat} (hslots : slots ≤ maxSlots) (b : Buffer)
    (additional : Nat) : RoomOutcome slots b additional (b.makeRoom (.upTo slots) additional) where
  lengthOverflow_iff := by
    intro len n
    rw [makeRoom_eq_error_iff, Contents.refused_lengthOverflow_iff, length_items_contents]
  overLimit_iff := by
    intro requested limit
    rw [makeRoom_eq_error_iff, Contents.refused_overLimit_iff, short_contents,
      length_items_contents]
    rfl
  allocation_iff := by
    intro why
    rw [makeRoom_eq_error_iff, Contents.refused_allocation_iff hslots, short_contents,
      within_contents, grownCapacity_contents, ← AllocationError.message_injective.eq_iff,
      apply_ite AllocationError.message]
    rfl
  error_cases := by
    intro cause h
    exact (makeRoom_eq_error_iff.1 h).lengthOverflow_or_ofGrowth
  of_le_capacity := by
    intro hlen hcap
    rw [makeRoom_of_le _ hlen hcap]
    exact ⟨⟨(), rfl⟩, rfl, rfl⟩
  of_grownCapacity_le := by
    intro hlen hcap hlimit hgrown
    rw [← grownCapacity_contents] at hgrown
    have hgrows : b.contents.Grows (.upTo slots) additional :=
      ⟨short_contents.2 ⟨hlen, hcap⟩, within_contents.2 hlimit, Nat.le_trans hgrown hslots,
        Memory.serves_upTo.2 hgrown⟩
    rw [makeRoom_of_grows hgrows]
    exact ⟨⟨(), rfl⟩, capacity_enlarge_of_grows hgrows⟩

/-- What is done with the room changes neither the answer to asking for it nor the capacity. -/
theorem RoomOutcome.andThen {slots : Nat} {o : Outcome Buffer Unit} {α : Type}
    {f : Buffer → Buffer × α} (h : RoomOutcome slots b additional o)
    (hf : ∀ b, (f b).1.capacity = b.capacity) :
    RoomOutcome slots b additional (o.andThen f) where
  lengthOverflow_iff := by simpa using h.lengthOverflow_iff
  overLimit_iff := by simpa using h.overLimit_iff
  allocation_iff := by simpa using h.allocation_iff
  error_cases := by simpa using h.error_cases
  of_le_capacity := by
    intro hlen hcap
    obtain ⟨⟨_, hres⟩, hstate, hlog⟩ := h.of_le_capacity hlen hcap
    rw [Outcome.andThen, hres]
    exact ⟨⟨_, rfl⟩, (hf o.state).trans hstate, hlog⟩
  of_grownCapacity_le := by
    intro hlen hcap hlimit hgrown
    obtain ⟨⟨_, hres⟩, hstate⟩ := h.of_grownCapacity_le hlen hcap hlimit hgrown
    rw [Outcome.andThen, hres]
    exact ⟨⟨_, rfl⟩, (hf o.state).trans hstate⟩

/-! ### The operations -/

theorem roomOutcome_reserve {slots : Nat} (hslots : slots ≤ maxSlots) (b : Buffer)
    (additional : Nat) (vs : List UInt64) :
    RoomOutcome slots b additional (b.reserve (.upTo slots) additional vs) :=
  (roomOutcome_makeRoom hslots b additional).andThen fun b => b.capacity_fill _

theorem reserve_eq_error_iff {vs : List UInt64} :
    (b.reserve memory additional vs).result = .error cause ↔
      b.contents.Refused memory additional cause := by
  rw [reserve, Outcome.result_andThen_eq_error, makeRoom_eq_error_iff]

theorem append_eq_error_iff {vs : List UInt64} (hvs : vs ≠ []) :
    (b.append memory vs).result = .error cause ↔ b.contents.Refused memory vs.length cause := by
  rw [append, if_neg (by simpa using hvs), Outcome.result_andThen_eq_error, makeRoom_eq_error_iff]

theorem push_eq_error_iff {v : UInt64} :
    (b.push memory v).result = .error cause ↔ b.contents.Refused memory 1 cause :=
  append_eq_error_iff (List.cons_ne_nil v [])

theorem insert_eq_error_iff {v : UInt64} :
    (b.insert memory v).result = .error cause ↔
      v ∉ b.items ∧ b.contents.Refused memory 1 cause := by
  cases hf : b.firstIndex? v with
  | some i =>
    have hv : v ∈ b.items := mem_of_firstIndex? hf
    rw [insert_of_mem memory hf]
    simp [Outcome.done, hv]
  | none =>
    have hv : v ∉ b.items := firstIndex?_eq_none_iff.1 hf
    rw [insert_of_not_mem memory hv, Outcome.result_andThen_eq_error, push_eq_error_iff]
    simp [hv]

theorem commit_eq_error_iff {count : Nat} :
    (b.commit count).result = .error cause ↔
      b.capacity < b.len + count ∧ cause = .overcommit b.len count b.capacity := by
  unfold commit
  by_cases h : b.len + count ≤ b.capacity
  · simp [Outcome.done, h, Nat.not_lt.2 h]
  · simp [Outcome.failed, h, Nat.not_le.1 h, eq_comm]

/-- No sum of two lengths that an allocation can hold is too large for a word. -/
theorem Bounded.len_add_le_maxLength (h : b.Bounded) (hn : additional ≤ maxSlots) :
    b.len + additional ≤ maxLength := by
  have hlen := b.len_le_capacity
  have hmax := h.le_maxSlots
  have hword := two_mul_maxSlots_le
  omega

theorem Bounded.ofGrowth (h : b.Bounded) (hn : additional ≤ maxSlots)
    (hr : b.contents.Refused memory additional cause) : cause.OfGrowth := by
  apply hr.ofGrowth
  rw [length_items_contents]
  exact h.len_add_le_maxLength hn

/-- When each operation on a reachable buffer fails and with which cause, where the memory has up to
`slots` slots. Values that come from a list of at most `maxSlots` are turned down by the limit or
by the memory only, and no checked sum on the way leaves the words. -/
theorem Reachable.failure_conditions {slots : Nat} (hslots : slots ≤ maxSlots) {b : Buffer}
    (h : b.Reachable (.upTo slots)) :
    (∀ n vs, RoomOutcome slots b n (b.reserve (.upTo slots) n vs)) ∧
    (∀ vs ws cause, vs ≠ [] → ((b.append (.upTo slots) vs).result = .error cause ↔
      (b.reserve (.upTo slots) vs.length ws).result = .error cause)) ∧
    (b.append (.upTo slots) []).result = .ok () ∧
    (∀ v ws cause, (b.push (.upTo slots) v).result = .error cause ↔
      (b.reserve (.upTo slots) 1 ws).result = .error cause) ∧
    (∀ v ws cause, (b.insert (.upTo slots) v).result = .error cause ↔
      v ∉ b.items ∧ (b.reserve (.upTo slots) 1 ws).result = .error cause) ∧
    (∀ count cause, (b.commit count).result = .error cause ↔
      b.capacity < b.len + count ∧ cause = .overcommit b.len count b.capacity) ∧
    (∀ vs cause, vs.length ≤ maxSlots → (b.append (.upTo slots) vs).result = .error cause →
      cause.OfGrowth) ∧
    (∀ v cause, (b.push (.upTo slots) v).result = .error cause → cause.OfGrowth) ∧
    (∀ v cause, (b.insert (.upTo slots) v).result = .error cause → cause.OfGrowth) ∧
    ∀ op, Checked.step? (.upTo slots) (Checked.state b) op =
      some ((b.step (.upTo slots) op).within Checked.state) := by
  have hb : b.Bounded := h.bounded
  have hone : 1 ≤ maxSlots := by decide
  refine ⟨roomOutcome_reserve hslots b, ?_, rfl, ?_, ?_, ?_, ?_, ?_, ?_,
    Checked.step?_state _ hb.le_maxSlots⟩
  · intro vs ws cause hvs
    rw [append_eq_error_iff hvs, reserve_eq_error_iff]
  · intro v ws cause
    rw [push_eq_error_iff, reserve_eq_error_iff]
  · intro v ws cause
    rw [insert_eq_error_iff, reserve_eq_error_iff]
  · intro count cause
    exact commit_eq_error_iff
  · intro vs cause hvs herror
    have hne : vs ≠ [] := by
      rintro rfl
      cases herror
    exact hb.ofGrowth hvs ((append_eq_error_iff hne).1 herror)
  · intro v cause herror
    exact hb.ofGrowth hone (push_eq_error_iff.1 herror)
  · intro v cause herror
    exact hb.ofGrowth hone (insert_eq_error_iff.1 herror).2

/-- Three items fill a buffer with a limit of three; a register that nothing was put into has room
for as much as the memory holds. -/
theorem failure_conditions_clamped :
    8 ≤ maxSlots ∧ (Registers.clamped 1).Reachable (.upTo 8) ∧
      ((Registers.clamped 1).push (.upTo 8) 6).result = .error (.overLimit 4 3) ∧
      (∀ cause, ((Registers.clamped 1).insert (.upTo 8) 9).result ≠ .error cause) ∧
      ((Registers.clamped 1).commit 1).result = .error (.overcommit 3 1 3) ∧
      ((Registers.clamped 2).reserve (.upTo 8) 9 []).result = .error (.allocation .exhausted) ∧
      ((Registers.clamped 2).reserve (.upTo 8) (maxSlots + 1) []).result =
        .error (.allocation .tooLarge) := by
  have hmax : 8 ≤ maxSlots := by decide
  have hfull : (Registers.clamped 1).Reachable (.upTo 8) :=
    ⟨_, 1, Registers.reachable_clamped, rfl⟩
  have hempty : (Registers.clamped 2).Reachable (.upTo 8) :=
    ⟨_, 2, Registers.reachable_clamped, rfl⟩
  obtain ⟨hreserve, -, -, hpush, hinsert, hcommit, -⟩ := Reachable.failure_conditions hmax hfull
  obtain ⟨hroom, -⟩ := Reachable.failure_conditions hmax hempty
  refine ⟨hmax, hfull, ?_, ?_, ?_, ?_, ?_⟩
  · rw [hpush 6 [], (hreserve 1 []).overLimit_iff]
    exact ⟨by decide, by decide, by decide, ⟨3, by decide, by decide⟩, by decide, rfl⟩
  · intro cause herror
    exact ((hinsert 9 [] cause).1 herror).1 (by decide)
  · rw [hcommit]
    decide
  · rw [(hroom 9 []).allocation_iff]
    exact ⟨by decide, by decide, by decide, by decide⟩
  · rw [(hroom (maxSlots + 1) []).allocation_iff]
    exact ⟨by decide, by decide, by decide, by decide⟩

end Buffer

end SlotBuffer
