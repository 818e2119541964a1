import SlotBuffer.Buffer.Op

/-! A buffer seen as two lists, the items and the spare slots. Every operation has a meaning on the
two lists alone, and the array of slots carries it out: `contents_step` says that an operation on a
buffer answers what its meaning answers and leaves the lists that its meaning leaves. -/

namespace SlotBuffer

structure Contents where
  items : List UInt64
  spare : List UInt64
  policy : Policy
deriving DecidableEq

namespace Contents

def capacity (c : Contents) : Nat := c.items.length + c.spare.length

/-! ### Insertion -/

/-- New spare slots hold zero. -/
def growTo (c : Contents) (capacity : Nat) : Contents :=
  { c with spare := c.spare ++ List.replicate (capacity - c.capacity) 0 }

variable (memory : Memory)

def makeRoom (c : Contents) (additional : Nat) : Except Failure Contents :=
  let target := c.items.length + additional
  let capacity := c.policy.nextCapacity c.capacity target
  if maxLength < target then .error (.lengthOverflow c.items.length additional)
  else if target ≤ c.capacity then .ok c
  else
    match c.policy.exceeded? target, memory.allocate capacity with
    | some limit, _ => .error (.overLimit target limit.slots)
    | none, .error cause => .error (.allocation cause)
    | none, .ok () => .ok (c.growTo capacity)

def reserve (c : Contents) (additional : Nat) (vs : List UInt64) :
    Except Failure (List UInt64 × Contents) := do
  let c ← c.makeRoom memory additional
  let vs := vs.take additional
  return (c.spare.take additional, { c with spare := vs ++ c.spare.drop vs.length })

def commit (c : Contents) (count : Nat) : Except Failure Contents :=
  if count ≤ c.spare.length then
    .ok { c with items := c.items ++ c.spare.take count, spare := c.spare.drop count }
  else .error (.overcommit c.items.length count c.capacity)

def append (c : Contents) (vs : List UInt64) : Except Failure Contents :=
  if vs.isEmpty then .ok c
  else do
    let c ← c.makeRoom memory vs.length
    return { c with items := c.items ++ vs, spare := c.spare.drop vs.length }

def insert (c : Contents) (v : UInt64) : Except Failure (Nat × Contents) :=
  match c.items.idxOf? v with
  | some i => .ok (i, c)
  | none => return (c.items.length, ← c.append memory [v])

/-! ### Removal and reordering -/

def swapErase (c : Contents) (v : UInt64) : Contents :=
  match lastIdxOf? v c.items, c.items.getLast? with
  | some i, some x => { c with items := (c.items.set i x).dropLast, spare := x :: c.spare }
  | _, _ => c

def erase (c : Contents) (v : UInt64) : Contents :=
  match c.items.getLast? with
  | some x => if v ∈ c.items then { c with items := c.items.erase v, spare := x :: c.spare } else c
  | none => c

def moveToBack (c : Contents) (v : UInt64) : Contents :=
  if v ∈ c.items.dropLast then { c with items := c.items.erase v ++ [v] } else c

def moveToFront (c : Contents) (v : UInt64) : Contents :=
  if v ∈ c.items then { c with items := v :: c.items.erase v } else c

/-! ### Steps -/

/-- A failure leaves the lists as they were. -/
def attempt {α : Type} (c : Contents) (r : Except Failure α) (reply : α → Reply)
    (next : α → Contents) : Except Failure Reply × Contents :=
  match r with
  | .ok a => (.ok (reply a), next a)
  | .error cause => (.error cause, c)

def step (c : Contents) : Buffer.Op → Except Failure Reply × Contents
  | .policy => (.ok (.policy c.policy), c)
  | .len => (.ok (.count c.items.length), c)
  | .capacity => (.ok (.count c.capacity), c)
  | .isEmpty => (.ok (.flag c.items.isEmpty), c)
  | .items => (.ok (.values c.items), c)
  | .get i => (.ok (.value c.items[i]?), c)
  | .contains v => (.ok (.flag (c.items.contains v)), c)
  | .find v => (.ok (.index (lastIdxOf? v c.items)), c)
  | .push v => c.attempt (c.append memory [v]) (fun _ => .unit) id
  | .append vs => c.attempt (c.append memory vs) (fun _ => .unit) id
  | .reserve additional vs => c.attempt (c.reserve memory additional vs) (.values ·.1) (·.2)
  | .commit count => c.attempt (c.commit count) (fun _ => .unit) id
  | .insert v => c.attempt (c.insert memory v) (fun r => .index (some r.1)) (·.2)
  | .swapErase v => (.ok .unit, c.swapErase v)
  | .erase v => (.ok (.index (c.items.idxOf? v)), c.erase v)
  | .moveToBack v => (.ok .unit, c.moveToBack v)
  | .moveToFront v => (.ok .unit, c.moveToFront v)
  | .clear => (.ok .unit, { c with items := [], spare := c.items ++ c.spare })
  | .destroy => (.ok .unit, { c with items := [], spare := [] })
  | .display => (.ok (.text (showItems .inline 0 c.items)), c)
  | .describe layout => (.ok (.text (describeParts layout c.items c.capacity c.policy)), c)

end Contents

/-! ### Buffers and their contents -/

namespace Buffer

def contents (b : Buffer) : Contents := ⟨b.items, b.spare, b.policy⟩

theorem contents_inj {a b : Buffer} : a.contents = b.contents ↔ a = b := by
  refine ⟨fun h => ?_, fun h => h ▸ rfl⟩
  injection h with hi hs hp
  exact ext_views hi hs hp

@[simp] theorem capacity_contents (b : Buffer) : b.contents.capacity = b.capacity := by
  simp only [contents, Contents.capacity, length_items, length_spare]
  exact Nat.add_sub_cancel' b.len_le_capacity

@[simp] theorem contents_enlarge (b : Buffer) {capacity : Nat} :
    (b.enlarge (capacity - b.capacity)).contents = b.contents.growTo capacity := by
  rw [Contents.growTo, capacity_contents]
  simp [contents]

theorem contents_clear (b : Buffer) :
    b.clear.contents = { b.contents with items := [], spare := b.items ++ b.spare } := by
  rw [contents, items_clear, spare_clear]
  rfl

theorem contents_fill (b : Buffer) {vs : List UInt64} (h : b.len + vs.length ≤ b.capacity) :
    (b.fill vs).contents = { b.contents with spare := vs ++ b.spare.drop vs.length } := by
  have hv : vs.take b.spare.length = vs := List.take_of_length_le (by rw [length_spare]; omega)
  rw [contents, items_fill, spare_fill, hv]
  rfl

theorem contents_advance (b : Buffer) (count : Nat) :
    (b.advance count).contents =
      { b.contents with
        items := b.items ++ b.spare.take count, spare := b.spare.drop count } := by
  rw [contents, items_advance, spare_advance]
  rfl

theorem contents_fill_advance (b : Buffer) {vs : List UInt64}
    (h : b.len + vs.length ≤ b.capacity) :
    ((b.fill vs).advance vs.length).contents =
      { b.contents with items := b.items ++ vs, spare := b.spare.drop vs.length } := by
  obtain ⟨hi, hs⟩ := b.views_fill_advance h
  rw [contents, hi, hs]
  rfl

variable (memory : Memory)

theorem contents_makeRoom (b : Buffer) (additional : Nat) :
    b.contents.makeRoom memory additional =
      (b.makeRoom memory additional).result.map fun _ =>
        (b.makeRoom memory additional).state.contents := by
  have hi : b.contents.items.length = b.len := b.length_items
  simp only [Contents.makeRoom, capacity_contents, hi]
  rcases Nat.lt_or_ge maxLength (b.len + additional) with hlen | hlen
  · simp [makeRoom_of_overflow memory hlen, hlen, Outcome.failed, Except.map]
  rcases Nat.lt_or_ge b.capacity (b.len + additional) with hcap | hcap
  · rw [makeRoom_of_gt memory hlen hcap, if_neg (by omega), if_neg (by omega)]
    rw [show b.contents.policy = b.policy from rfl]
    cases h : b.policy.exceeded? (b.len + additional) with
    | some limit => rw [grow_of_exceeded memory h]; rfl
    | none =>
      have hle : b.capacity ≤ b.policy.nextCapacity b.capacity (b.len + additional) :=
        Nat.le_trans (Nat.le_of_lt hcap) (Policy.le_nextCapacity h)
      have hr := b.policy.strategy.request_eq_allocate memory hle
      cases ha : memory.allocate (b.policy.nextCapacity b.capacity (b.len + additional)) with
      | error cause => rw [grow_of_refused memory h (hr.trans ha)]; rfl
      | ok => rw [grow_of_granted memory h (hr.trans ha)]; simp [Except.map]
  · rw [makeRoom_of_le memory hlen hcap, if_neg (by omega), if_pos hcap]
    rfl

theorem contents_reserve (b : Buffer) (additional : Nat) (vs : List UInt64) :
    b.contents.reserve memory additional vs =
      (b.reserve memory additional vs).result.map fun window =>
        (window, (b.reserve memory additional vs).state.contents) := by
  rw [Contents.reserve, contents_makeRoom]
  rcases b.makeRoom_cases memory additional with ⟨cause, hres, _⟩ | ⟨hres, hroom, extra, hstate⟩
  · rw [reserve_of_error memory hres, hres]
    rfl
  · have hlen : (b.makeRoom memory additional).state.len = b.len := by rw [hstate]; rfl
    rw [reserve_of_ok memory hres, hres]
    simp only [Except.map]
    rw [contents_fill _ (by rw [List.length_take]; omega)]
    rfl

theorem contents_commit (b : Buffer) (count : Nat) :
    b.contents.commit count =
      (b.commit count).result.map fun _ => (b.commit count).state.contents := by
  have hle := b.len_le_capacity
  have hi : b.contents.items.length = b.len := b.length_items
  have hs : b.contents.spare.length = b.capacity - b.len := b.length_spare
  rw [Contents.commit, hi, hs, capacity_contents, commit]
  by_cases h : b.len + count ≤ b.capacity
  · rw [if_pos h, if_pos (by omega)]
    exact congrArg Except.ok (b.contents_advance count).symm
  · rw [if_neg h, if_neg (by omega)]
    rfl

theorem contents_append (b : Buffer) (vs : List UInt64) :
    b.contents.append memory vs =
      (b.append memory vs).result.map fun _ => (b.append memory vs).state.contents := by
  by_cases hvs : vs = []
  · subst hvs
    rfl
  rw [Contents.append, if_neg (by simpa using hvs), contents_makeRoom]
  rcases b.makeRoom_cases memory vs.length with ⟨cause, hres, _⟩ | ⟨hres, hroom, extra, hstate⟩
  · rw [append_of_error memory hvs hres, hres]
    rfl
  · have hlen : (b.makeRoom memory vs.length).state.len = b.len := by rw [hstate]; rfl
    rw [append_of_ok memory hvs hres, hres]
    simp only [Except.map]
    rw [contents_fill_advance _ (by omega)]
    rfl

theorem contents_insert (b : Buffer) (v : UInt64) :
    b.contents.insert memory v =
      (b.insert memory v).result.map fun i => (i, (b.insert memory v).state.contents) := by
  cases h : b.firstIndex? v with
  | some i =>
    rw [insert_of_mem memory h, Contents.insert, show b.contents.items.idxOf? v = some i from h]
    rfl
  | none =>
    rw [insert_of_not_mem memory (firstIndex?_eq_none_iff.1 h), Contents.insert,
      show b.contents.items.idxOf? v = none from h, contents_append, push, Outcome.andThen]
    simp only [show b.contents.items.length = b.len from b.length_items]
    rcases b.append_cases memory [v] with ⟨cause, hres, hstate⟩ | ⟨hres, _⟩ <;> rw [hres] <;> rfl

theorem contents_swapErase (b : Buffer) (v : UInt64) :
    (b.swapErase v).contents = b.contents.swapErase v := by
  cases h : b.lastIndex? v with
  | none =>
    rw [Contents.swapErase, show lastIdxOf? v b.contents.items = none from h]
    simp [swapErase, h]
  | some i =>
    have hi := lastIndex?_lt h
    rcases List.eq_nil_or_concat b.items with hx | ⟨xs, x, hx⟩
    · rw [← length_items, hx] at hi
      exact absurd hi (Nat.not_lt_zero _)
    rw [List.concat_eq_append] at hx
    obtain ⟨hitems, hspare⟩ := views_swapErase h hx
    rw [Contents.swapErase, show lastIdxOf? v b.contents.items = some i from h,
      show b.contents.items.getLast? = some x by simp [contents, hx], contents, hitems, hspare,
      policy_swapErase]
    rfl

theorem contents_erase (b : Buffer) (v : UInt64) :
    (b.erase v).2.contents = b.contents.erase v := by
  rw [contents, items_erase, spare_erase, policy_erase, Contents.erase]
  rcases List.eq_nil_or_concat b.items with hx | ⟨xs, x, hx⟩
  · simp [contents, hx]
  · have hlen : b.len = xs.length + 1 := by rw [← length_items, hx]; simp
    have hd : b.items.drop (b.len - 1) = [x] := by simp [hx, hlen]
    rw [show b.contents.items.getLast? = some x by simp [contents, hx], hd]
    by_cases hv : v ∈ b.items
    · simp [contents, hv]
    · simp [contents, hv, List.erase_of_not_mem hv]

theorem contents_moveToBack (b : Buffer) (v : UInt64) :
    (b.moveToBack v).contents = b.contents.moveToBack v := by
  rw [contents, items_moveToBack, spare_moveToBack, policy_moveToBack, Contents.moveToBack]
  by_cases hv : v ∈ b.items.dropLast <;> simp [contents, hv]

theorem contents_moveToFront (b : Buffer) (v : UInt64) :
    (b.moveToFront v).contents = b.contents.moveToFront v := by
  rw [contents, items_moveToFront, spare_moveToFront, policy_moveToFront, Contents.moveToFront]
  by_cases hv : v ∈ b.items <;> simp [contents, hv]

/-- An operation that may fail does what its meaning does where the two agree on success, and
where it changes nothing on failure. -/
theorem attempt_contents {α β : Type} {b : Buffer} {o : Outcome Buffer α} (g : α → β)
    {reply : β → Reply} {next : β → Contents} {f : α → Reply}
    (hok : ∀ a, reply (g a) = f a ∧ next (g a) = o.state.contents)
    (herror : ∀ cause, o.result = .error cause → o.state = b) :
    b.contents.attempt (o.result.map g) reply next =
      ((o.map f).result, (o.map f).state.contents) := by
  cases h : o.result with
  | ok a => simp [Contents.attempt, Outcome.map, Except.map, h, hok]
  | error cause => simp [Contents.attempt, Outcome.map, Except.map, h, herror cause h]

/-- What an operation means for the two lists is what it does. -/
theorem contents_step (b : Buffer) (op : Op) :
    b.contents.step memory op =
      ((b.step memory op).result, (b.step memory op).state.contents) := by
  cases op with
  | push v =>
    rw [Contents.step, contents_append, step, push]
    exact attempt_contents _ (fun _ => ⟨rfl, rfl⟩) fun _ => state_append_of_error memory
  | append vs =>
    rw [Contents.step, contents_append, step]
    exact attempt_contents _ (fun _ => ⟨rfl, rfl⟩) fun _ => state_append_of_error memory
  | reserve additional vs =>
    rw [Contents.step, contents_reserve, step]
    exact attempt_contents _ (fun _ => ⟨rfl, rfl⟩) fun _ => state_reserve_of_error memory
  | commit count =>
    rw [Contents.step, contents_commit, step]
    exact attempt_contents _ (fun _ => ⟨rfl, rfl⟩) fun _ => state_commit_of_error
  | insert v =>
    rw [Contents.step, contents_insert, step]
    exact attempt_contents _ (fun _ => ⟨rfl, rfl⟩) fun _ => state_insert_of_error memory
  | swapErase v =>
    rw [Contents.step, ← contents_swapErase]
    rfl
  | erase v =>
    rw [Contents.step, ← contents_erase, step, Outcome.done, erase_index]
    rfl
  | moveToBack v =>
    rw [Contents.step, ← contents_moveToBack]
    rfl
  | moveToFront v =>
    rw [Contents.step, ← contents_moveToFront]
    rfl
  | contains v =>
    have h : b.contains v = b.items.contains v := by
      rw [Bool.eq_iff_iff, List.contains_iff_mem]
      exact isSome_lastIdxOf?
    rw [Contents.step, step, h]
    rfl
  | isEmpty =>
    have h : b.isEmpty = b.items.isEmpty := by
      rw [Bool.eq_iff_iff, List.isEmpty_iff_length_eq_zero, length_items]
      simp [isEmpty]
    rw [Contents.step, step, h]
    rfl
  | clear =>
    rw [Contents.step, step, Outcome.done, contents_clear]
    rfl
  | destroy => rfl
  | len =>
    rw [Contents.step, show b.contents.items.length = b.len from b.length_items]
    rfl
  | capacity =>
    rw [Contents.step, capacity_contents]
    rfl
  | describe layout =>
    rw [Contents.step, capacity_contents]
    rfl
  | policy | items | get | find | display => rfl

end Buffer

end SlotBuffer
