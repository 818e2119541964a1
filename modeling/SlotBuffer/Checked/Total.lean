import SlotBuffer.Checked.Basic

/-! No check ever fails on a buffer whose capacity could have been allocated: `step?_state` says
that the checked operation then has an answer, and that it is the answer of the operation itself. -/

namespace SlotBuffer.Checked

/-- A buffer without the bound on its length. -/
def state (b : Buffer) : State := ⟨b.slots, b.len, b.policy⟩

/-! ### Words and ranges -/

theorem add?_eq {m n : Nat} (h : m + n ≤ maxLength) : add? m n = some (m + n) := if_pos h

theorem sub?_eq {m n : Nat} (h : n ≤ m) : sub? m n = some (m - n) := if_pos h

theorem range?_take {slots : Array UInt64} {stop : Nat} (h : stop ≤ slots.size) :
    range? slots 0 stop = some (slots.toList.take stop) := by
  simp [range?, h]

@[simp] theorem items?_state (b : Buffer) : items? (state b) = some b.items :=
  range?_take b.len_le

theorem lay?_eq {slots : Array UInt64} {start stop : Nat} {vs : List UInt64}
    (h : start + vs.length = stop) (hs : stop ≤ slots.size) :
    lay? slots start stop vs = some (overwrite slots start vs) := by
  rw [lay?, if_pos ⟨h, hs⟩]

theorem shift?_eq {slots : Array UInt64} {start stop target : Nat} (h : start ≤ stop)
    (hs : stop ≤ slots.size) (ht : target + (stop - start) ≤ slots.size) :
    shift? slots start stop target =
      some (overwrite slots target ((slots.toList.take stop).drop start)) := by
  have hlen : ((slots.toList.take stop).drop start).length = stop - start := by simp; omega
  rw [shift?, range?, if_pos ⟨h, hs⟩]
  exact lay?_eq rfl (by rw [hlen]; exact ht)

/-! ### Growth -/

theorem enlarge?_state (memory : Memory) {b : Buffer} {after : Nat} (h : b.capacity ≤ after) :
    enlarge? memory (state b) after =
      some ((b.policy.strategy.request memory b.capacity after).map fun _ =>
        b.policy.strategy.enlarge b.slots (after - b.capacity)) := by
  have h : b.slots.size ≤ after := h
  have hadd : b.slots.size + (after - b.slots.size) = after := Nat.add_sub_cancel' h
  unfold enlarge?
  cases hs : b.policy.strategy with
  | inPlace =>
    simp only [state, hs, sub?_eq h]
    rfl
  | copying =>
    simp only [state, hs, Strategy.request, Strategy.enlarge, Buffer.capacity, hadd]
    cases memory.allocate after with
    | error cause => rfl
    | ok =>
      rw [lay?_eq (by simp) (by simpa using h)]
      rfl

theorem andThen?_within {α β : Type} {o : Outcome Buffer α} {f : Buffer → Buffer × β}
    {g : State → Option (State × β)}
    (h : ∀ a, o.result = .ok a → g (state o.state) = some (state (f o.state).1, (f o.state).2)) :
    andThen? (o.within state) g = some ((o.andThen f).within state) := by
  cases ho : o.result with
  | error cause => simp [andThen?, Outcome.within, Outcome.andThen, ho]
  | ok a => simp [andThen?, Outcome.within, Outcome.andThen, ho, h a ho]

variable (memory : Memory)

theorem nextCapacity?_state {b : Buffer} (target : Nat) (hcap : b.capacity ≤ maxSlots) :
    nextCapacity? (state b) target = some (b.policy.nextCapacity b.capacity target) := by
  have hdouble : b.slots.size + b.slots.size ≤ maxLength := by
    have hsize : b.slots.size ≤ maxSlots := hcap
    have hword := two_mul_maxSlots_le
    omega
  rw [nextCapacity?, show (state b).slots = b.slots from rfl, add?_eq hdouble, ← Nat.two_mul]
  rfl

theorem grow?_state {b : Buffer} {target : Nat} (hcap : b.capacity ≤ maxSlots)
    (h : b.capacity < target) :
    grow? memory (state b) target = some ((b.grow memory target).within state) := by
  rw [grow?, nextCapacity?_state target hcap, show (state b).policy = b.policy from rfl]
  cases he : b.policy.exceeded? target with
  | some limit =>
    rw [Buffer.grow_of_exceeded memory he]
    rfl
  | none =>
    have hle := Nat.le_trans (Nat.le_of_lt h)
      (Policy.le_nextCapacity he : target ≤ b.policy.nextCapacity b.capacity target)
    have hsize : (b.policy.strategy.enlarge b.slots
        (b.policy.nextCapacity b.capacity target - b.capacity)).size =
        b.policy.nextCapacity b.capacity target := by
      rw [Strategy.size_enlarge]
      exact Nat.add_sub_cancel' hle
    simp only [Option.bind_eq_bind, Option.bind_some, enlarge?_state memory hle]
    cases hr : b.policy.strategy.request memory b.capacity
        (b.policy.nextCapacity b.capacity target) with
    | error cause =>
      rw [Buffer.grow_of_refused memory he hr]
      rfl
    | ok =>
      rw [Buffer.grow_of_granted memory he hr]
      simp only [Except.map, hsize]
      rfl

theorem makeRoom?_state {b : Buffer} (hcap : b.capacity ≤ maxSlots) (additional : Nat) :
    makeRoom? memory (state b) additional =
      some ((b.makeRoom memory additional).within state) := by
  rcases Nat.lt_or_ge maxLength (b.len + additional) with hlen | hlen
  · rw [Buffer.makeRoom_of_overflow memory hlen, makeRoom?,
      show add? (state b).len additional = none from if_neg (Nat.not_le.2 hlen)]
    rfl
  rw [makeRoom?, show add? (state b).len additional = some (b.len + additional) from add?_eq hlen]
  rcases Nat.lt_or_ge b.capacity (b.len + additional) with hlt | hge
  · rw [Buffer.makeRoom_of_gt memory hlen hlt, ← grow?_state memory hcap hlt]
    exact if_neg (Nat.not_le.2 hlt)
  · rw [Buffer.makeRoom_of_le memory hlen hge]
    exact if_pos hge

/-! ### Operations -/

/-- After room was made, the words that the checks add up are in range. -/
theorem room_facts {b : Buffer} {additional : Nat}
    (h : (b.makeRoom memory additional).result = .ok ()) :
    (b.makeRoom memory additional).state.len = b.len ∧
      b.len + additional ≤ maxLength ∧
      b.len + additional ≤ (b.makeRoom memory additional).state.slots.size := by
  obtain ⟨hroom, extra, hstate⟩ := Buffer.makeRoom_of_ok memory h
  exact ⟨by rw [hstate]; rfl, Buffer.le_maxLength_of_makeRoom memory h, hroom⟩

theorem reserve?_state {b : Buffer} (hcap : b.capacity ≤ maxSlots) (additional : Nat)
    (vs : List UInt64) :
    reserve? memory (state b) additional vs =
      some ((b.reserve memory additional vs).within state) := by
  rw [reserve?, makeRoom?_state memory hcap, Option.bind_eq_bind, Option.bind_some]
  refine andThen?_within fun _ h => ?_
  obtain ⟨hlen, hmax, hroom⟩ := room_facts memory h
  generalize (b.makeRoom memory additional).state = c at hlen hroom
  rw [← hlen] at hmax hroom
  have hwindow : range? c.slots c.len (c.len + additional) =
      some (c.spare.take additional) := by
    rw [range?, if_pos ⟨Nat.le_add_right .., hroom⟩, Buffer.spare, List.drop_take,
      Nat.add_sub_cancel_left]
  have hvs : (vs.take additional).length ≤ additional := List.length_take_le ..
  simp only [state, add?_eq hmax, hwindow, Option.bind_eq_bind, Option.bind_some,
    lay?_eq rfl (Nat.le_trans (Nat.add_le_add_left hvs _) hroom)]
  rfl

theorem commit?_state {b : Buffer} (hcap : b.capacity ≤ maxSlots) (count : Nat) :
    commit? (state b) count = some ((b.commit count).within state) := by
  have hlen := b.len_le_capacity
  rw [commit?, Buffer.commit]
  by_cases h : b.len + count ≤ maxLength
  · rw [show add? (state b).len count = some (b.len + count) from add?_eq h]
    by_cases hc : b.len + count ≤ b.capacity
    · rw [if_pos hc, Outcome.done, Outcome.within, state, Buffer.advance]
      simp only [Nat.min_eq_left hc]
      exact if_pos hc
    · rw [if_neg hc]
      exact if_neg hc
  · rw [show add? (state b).len count = none from if_neg h, if_neg]
    · rfl
    · have hword := two_mul_maxSlots_le
      omega

theorem append?_state {b : Buffer} (hcap : b.capacity ≤ maxSlots) (vs : List UInt64) :
    append? memory (state b) vs = some ((b.append memory vs).within state) := by
  rw [append?, Buffer.append]
  split
  next => rfl
  rw [makeRoom?_state memory hcap, Option.bind_eq_bind, Option.bind_some]
  refine andThen?_within fun _ h => ?_
  obtain ⟨hlen, hmax, hroom⟩ := room_facts memory h
  generalize (b.makeRoom memory vs.length).state = c at hlen hroom
  rw [← hlen] at hmax hroom
  have hcap' : (c.fill vs).capacity = c.slots.size := c.capacity_fill vs
  simp only [state, add?_eq hmax, Option.bind_eq_bind, Option.bind_some, lay?_eq rfl hroom,
    Buffer.advance, hcap', show (c.fill vs).len = c.len from rfl, Nat.min_eq_left hroom]
  rfl

theorem insert?_state {b : Buffer} (hcap : b.capacity ≤ maxSlots) (v : UInt64) :
    insert? memory (state b) v = some ((b.insert memory v).within state) := by
  rw [insert?, items?_state, Option.bind_eq_bind, Option.bind_some]
  cases h : b.firstIndex? v with
  | some i =>
    rw [Buffer.insert_of_mem memory h, show b.items.idxOf? v = some i from h]
    rfl
  | none =>
    rw [Buffer.insert_of_not_mem memory (Buffer.firstIndex?_eq_none_iff.1 h),
      show b.items.idxOf? v = none from h, append?_state memory hcap]
    simp only [Option.bind_eq_bind, Option.bind_some, Buffer.push]
    refine andThen?_within fun _ h => ?_
    have hlen : (b.append memory [v]).state.len = b.len + 1 := by
      rw [← Buffer.length_items, Buffer.items_append memory h, List.length_append,
        Buffer.length_items]
      rfl
    generalize (b.append memory [v]).state = c at hlen
    simp only [state, hlen, sub?_eq (Nat.le_add_left 1 b.len), Nat.add_sub_cancel,
      Option.bind_some]
    rfl

/-! ### Removal and reordering -/

theorem slots_getElem?_last {b : Buffer} {xs : List UInt64} {x : UInt64}
    (h : b.items = xs ++ [x]) : b.slots[b.len - 1]? = some x := by
  have hlen : b.len = xs.length + 1 := by rw [← Buffer.length_items, h]; simp
  have hx : b.items[b.len - 1]? = some x := by rw [h, hlen]; simp
  rw [Buffer.items, List.getElem?_take_of_lt (by omega), Array.getElem?_toList] at hx
  exact hx

theorem write?_eq {slots : Array UInt64} {i : Nat} {v : UInt64} (h : i < slots.size) :
    write? slots i v = some (overwrite slots i [v]) := if_pos h

theorem swapErase?_state (b : Buffer) (v : UInt64) :
    swapErase? (state b) v = some (state (b.swapErase v)) := by
  rw [swapErase?, items?_state, Option.bind_eq_bind, Option.bind_some, Buffer.swapErase]
  cases h : b.lastIndex? v with
  | none =>
    rw [show lastIdxOf? v b.items = none from h]
    rfl
  | some i =>
    rw [show lastIdxOf? v b.items = some i from h]
    have hi := Buffer.lastIndex?_lt h
    have hle := b.len_le
    rcases List.eq_nil_or_concat b.items with hx | ⟨xs, x, hx⟩
    · rw [← Buffer.length_items, hx] at hi
      exact absurd hi (Nat.not_lt_zero _)
    rw [List.concat_eq_append] at hx
    have hlast : b.items.getLast?.toList = [x] := by rw [hx]; simp
    simp only [state, sub?_eq (show 1 ≤ b.len by omega), read?, slots_getElem?_last hx,
      write?_eq (show i < b.slots.size by omega), Option.bind_eq_bind, Option.bind_some, hlast]
    rfl

theorem drop_take_slots (b : Buffer) (i : Nat) :
    (b.slots.toList.take b.len).drop i = b.items.drop i := rfl

theorem erase?_state {b : Buffer} (hcap : b.capacity ≤ maxSlots) (v : UInt64) :
    erase? (state b) v = some ((b.erase v).1, state (b.erase v).2) := by
  rw [erase?, items?_state, Option.bind_eq_bind, Option.bind_some, Buffer.erase]
  cases h : b.firstIndex? v with
  | none =>
    rw [show b.items.idxOf? v = none from h]
    rfl
  | some i =>
    rw [show b.items.idxOf? v = some i from h]
    have hi := Buffer.firstIndex?_lt h
    have hle := b.len_le
    have hword : i + 1 ≤ maxLength := by
      unfold Buffer.capacity maxSlots at hcap
      unfold maxLength
      omega
    simp only [state, add?_eq hword, Option.bind_eq_bind, Option.bind_some,
      shift?_eq (show i + 1 ≤ b.len by omega) hle
        (show i + (b.len - (i + 1)) ≤ b.slots.size by omega),
      sub?_eq (show 1 ≤ b.len by omega)]
    rfl

theorem moveToBack?_state {b : Buffer} (hcap : b.capacity ≤ maxSlots) (v : UInt64) :
    moveToBack? (state b) v = some (state (b.moveToBack v)) := by
  rw [moveToBack?, Buffer.moveToBack]
  have hle := b.len_le
  rcases Nat.eq_zero_or_pos b.len with h0 | hpos
  · have hx : b.items = [] := List.eq_nil_of_length_eq_zero (by rw [Buffer.length_items, h0])
    have hsub : sub? b.len 1 = none := by rw [h0]; rfl
    rw [show sub? (state b).len 1 = none from hsub, hx]
    rfl
  have hlast : b.slots.toList.take (b.len - 1) = b.items.dropLast := by
    rw [List.dropLast_eq_take, Buffer.length_items, Buffer.items, List.take_take,
      Nat.min_eq_left (Nat.sub_le ..)]
  rw [show sub? (state b).len 1 = some (b.len - 1) from sub?_eq hpos]
  simp only [state, range?_take (show b.len - 1 ≤ b.slots.size by omega), hlast,
    Option.bind_eq_bind, Option.bind_some]
  cases h : b.items.dropLast.idxOf? v with
  | none => rfl
  | some i =>
    have hi := Buffer.firstIndex?_lt (Buffer.firstIndex?_of_dropLast h)
    have hword : i + 1 ≤ maxLength := by
      unfold Buffer.capacity maxSlots at hcap
      unfold maxLength
      omega
    have hend : i + (b.items.drop (i + 1)).length = b.len - 1 := by simp; omega
    simp only [add?_eq hword, Option.bind_some, drop_take_slots,
      shift?_eq (show i + 1 ≤ b.len by omega) hle
        (show i + (b.len - (i + 1)) ≤ b.slots.size by omega)]
    rw [write?_eq (by rw [size_overwrite]; omega), ← hend, ← overwrite_append]
    rfl

theorem moveToFront?_state (b : Buffer) (v : UInt64) :
    moveToFront? (state b) v = some (state (b.moveToFront v)) := by
  rw [moveToFront?, items?_state, Option.bind_eq_bind, Option.bind_some, Buffer.moveToFront]
  cases h : b.firstIndex? v with
  | none =>
    rw [show b.items.idxOf? v = none from h]
    rfl
  | some i =>
    rw [show b.items.idxOf? v = some i from h]
    have hi := Buffer.firstIndex?_lt h
    have hle := b.len_le
    have htake : (b.slots.toList.take i).drop 0 = b.items.take i := by
      rw [List.drop_zero, Buffer.items, List.take_take, Nat.min_eq_left (by omega)]
    simp only [state, Option.bind_eq_bind, Option.bind_some, htake,
      shift?_eq (Nat.zero_le i) (show i ≤ b.slots.size by omega)
        (show 1 + (i - 0) ≤ b.slots.size by omega)]
    rw [write?_eq (by rw [size_overwrite]; omega), overwrite_cons, overwrite_nil,
      ← overwrite_setIfInBounds _ _ _ Nat.zero_lt_one]
    rfl

/-! ### Steps -/

/-- Every check passes, and the checked operation does what the operation does. -/
theorem step?_state {b : Buffer} (hcap : b.capacity ≤ maxSlots) (op : Buffer.Op) :
    step? memory (state b) op = some ((b.step memory op).within state) := by
  cases op with
  | push v =>
    rw [step?, append?_state memory hcap]
    rfl
  | append vs =>
    rw [step?, append?_state memory hcap]
    rfl
  | reserve additional vs =>
    rw [step?, reserve?_state memory hcap]
    rfl
  | commit count =>
    rw [step?, commit?_state hcap]
    rfl
  | insert v =>
    rw [step?, insert?_state memory hcap]
    rfl
  | swapErase v =>
    rw [step?, swapErase?_state]
    rfl
  | erase v =>
    rw [step?, erase?_state hcap]
    rfl
  | moveToBack v =>
    rw [step?, moveToBack?_state hcap]
    rfl
  | moveToFront v =>
    rw [step?, moveToFront?_state]
    rfl
  | items | get | contains | find | display | describe =>
    rw [step?, items?_state]
    rfl
  | policy | len | capacity | isEmpty | clear | destroy => rfl

end SlotBuffer.Checked
